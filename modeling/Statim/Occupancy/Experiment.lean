import Mathlib.Algebra.Order.Ring.Rat
import Statim.Control.FlowTableController
import Statim.Control.LocalRouteController
import Statim.Pipeline.PacketHeader
import Statim.Support.Agenda
import Statim.Support.Checks
import Statim.TraceName

/-!
# The temporary FIB occupancy experiment

`TemporaryFibExperiment` connects the local controller of a `StatefulForwarder` with a
`FlowTableController` that answers every request `Tc` later, inserts distinct prefixes, and
measures how many are resident: the high-water mark, the occupancy integral, and one
residence sample for each prefix.

The simulator clock counts nanoseconds; seconds are rational.  Callbacks act on the whole
world, as in the controllers, and a `throw` inside of one is recorded: the first exception
is what the enclosing event raises, so that nothing after it counts.
-/

namespace Statim.Occupancy

open Support

/-- Simulator time in seconds. -/
def seconds (ns : Nat) : ℚ := ns / 10 ^ 9

/-- A residence sample. -/
structure Sample where
  id : UInt64
  arrival : ℚ
  completion : ℚ
  residence : ℚ
deriving DecidableEq, Repr

/-- The events that `main` schedules. -/
inductive DriverEvent
  | arrive (id : UInt64)
  | stop
deriving DecidableEq, Repr

/-- The members of the experiment other than the two controllers. -/
structure TemporaryFibExperiment where
  lastObservedSize : Nat := 0
  highWater : Nat := 0
  lastTransition : ℚ := 0
  area : ℚ := 0
  arrivals : Std.TreeMap Name (UInt64 × ℚ) := ∅
  samples : List Sample := []
  controlRequestsObserved : Nat := 0
  flowModsObserved : Nat := 0
  syncCompleteCallbacks : Nat := 0
  insertLookupChecks : Nat := 0
  deleteLookupChecks : Nat := 0
  /-- The counter of `m_module`. -/
  traceUpdatesAccepted : Nat := 0
  /-- The share of `main` in the simulator queue. -/
  driver : List (Scheduled DriverEvent) := []
  /-- Whether `Simulator::Stop` has taken effect. -/
  stopped : Bool := false
  /-- The exception that unwinds the current event. -/
  thrown : Option String := none

/-- The surroundings of the local controller. -/
structure ExperimentEnv where
  central : FlowTableController
  history : List FlowTableObs
  members : TemporaryFibExperiment

abbrev ExperimentWorld := LocalWorld ExperimentEnv

/-- The surroundings of the flow-table controller. -/
structure CentralEnv where
  ctl : LocalRouteController
  log : List LocalObs
  members : TemporaryFibExperiment

/-- Distinct prefixes with their arrival times, and the completion delay.  `ns3::Time` holds
the time at which the run is stopped. -/
structure Workload where
  tc : Nat
  arrivals : List (UInt64 × Nat)
  tc_pos : 0 < tc
  nodup : (arrivals.map Prod.fst).Nodup
  sorted : arrivals.Pairwise fun x y => x.2 ≤ y.2
  stop_lt : (arrivals.map Prod.snd).foldl max 0 + tc + 1 < 2 ^ 63

namespace Workload

def lastArrival (work : Workload) : Nat := (work.arrivals.map Prod.snd).foldl max 0

def horizon (work : Workload) : Nat := work.lastArrival + work.tc

end Workload

/-- A burst of two prefixes, and an arrival when they complete. -/
def sampleWorkload : Workload :=
  ⟨3, [(7, 0), (1, 0), (5, 3)], by decide, by decide, by decide, by decide⟩

/-! ## Settings -/

/-- The local controller as it is constructed. -/
def temporaryConfig : LocalConfig where
  entryLifetime := 0
  controllerRetryTimeout := 0
  controllerRetryLimit := 3
  generationGuardEnabled := false

/-- The flow-table controller with the controller delay `tc`.  An exchange draws the loss
and the delay of the request, the delay and the loss of the FlowMod, and the delay and the
loss of the SyncAck, in this order; only the FlowMod is delayed, and nothing is lost. -/
def centralConfig (tc : Nat) : FlowTableConfig where
  generationGuardEnabled := false
  drop _ _ := false
  delay _ n := if n % 6 = 2 then tc else 0

/-! ## Wiring -/

def toCentral (w : ExperimentWorld) : FlowTableWorld CentralEnv where
  clock := w.clock
  ctl := w.env.central
  log := w.env.history
  env := { ctl := w.ctl, log := w.log, members := w.env.members }

def toTemporary (w : FlowTableWorld CentralEnv) : ExperimentWorld where
  clock := w.clock
  ctl := w.env.ctl
  log := w.env.log
  env := { central := w.ctl, history := w.log, members := w.env.members }

@[simp] theorem toTemporary_toCentral (w : ExperimentWorld) : toTemporary (toCentral w) = w := rfl

@[simp] theorem toCentral_toTemporary (w : FlowTableWorld CentralEnv) :
    toCentral (toTemporary w) = w := rfl

/-- Assign to members of the experiment. -/
def update (f : TemporaryFibExperiment → TemporaryFibExperiment) (w : ExperimentWorld) :
    ExperimentWorld :=
  { w with env := { w.env with members := f w.env.members } }

/-- A `throw` in a callback. -/
def raise (message : String) (w : ExperimentWorld) : ExperimentWorld :=
  update (fun x => { x with thrown := x.thrown.or (some message) }) w

/-- The end of a call: an exception goes on to the caller. -/
def settle (w : ExperimentWorld) : Except String ExperimentWorld :=
  match w.env.members.thrown with
  | none => .ok w
  | some message => .error message

/-! ## Accounting -/

/-- The assignments of `AccountUntil`. -/
def accounted (now : ℚ) (x : TemporaryFibExperiment) : TemporaryFibExperiment :=
  { x with
    area := x.area + x.lastObservedSize * (now - x.lastTransition)
    lastTransition := now }

/-- `AccountUntil`. -/
def accountUntil (now : ℚ) (w : ExperimentWorld) : Except String ExperimentWorld :=
  if now + 1 / 10 ^ 12 < w.env.members.lastTransition then
    .error "simulation time moved backwards"
  else .ok (update (accounted now) w)

/-- `VerifyRealSize`. -/
def verifyRealSize (context : String) (w : ExperimentWorld) : Except String Unit :=
  require (decide (w.ctl.fibSize = w.env.members.lastObservedSize))
    ("accounting diverged from temporary FIB size " ++ context)

/-! ## Callbacks -/

/-- The completion callback of the local controller. -/
def onSyncComplete (pfx : Name) (w : ExperimentWorld) : ExperimentWorld :=
  let found := LocalRouteController.findExact pfx w
  if found.1.isSome then raise "completion callback observed a resident entry" found.2
  else update (fun x => { x with syncCompleteCallbacks := x.syncCompleteCallbacks + 1 }) found.2

/-- A response never calls the request callback. -/
def responseCallbacks : LocalCallbacks ExperimentEnv where
  request := none
  complete := some onSyncComplete

/-- `Complete`. -/
def complete (message : ControlMessage) (w : ExperimentWorld) :
    Except String ExperimentWorld := do
  require (decide (message.type = .syncAck))
    "central controller emitted a non-SYNC_ACK completion"
  let now := seconds w.clock.now
  let w ← accountUntil now w
  verifyRealSize "before completion" w
  match w.env.members.arrivals[message.pfx]? with
  | none => .error "SYNC_ACK has no matching resident prefix"
  | some arrival => do
    let found := LocalRouteController.findExact message.pfx w
    require found.1.isSome "prefix is not queryable immediately before SYNC_ACK"
    let before := found.2.ctl.fibSize
    let response := LocalRouteController.handleControlResponse temporaryConfig responseCallbacks
      message found.2
    let w ← settle response.2
    require response.1 "matching SYNC_ACK was rejected"
    let after := w.ctl.fibSize
    require (decide (before ≠ 0 ∧ after + 1 = before))
      "temporary FIB size did not decrease after SYNC_ACK"
    let found := LocalRouteController.findExact message.pfx w
    require found.1.isNone "deleted prefix remains exactly queryable"
    let sample : Sample := ⟨arrival.1, arrival.2, now, now - arrival.2⟩
    return update (fun x => { x with
      samples := x.samples ++ [sample]
      arrivals := x.arrivals.erase message.pfx
      deleteLookupChecks := x.deleteLookupChecks + 1
      lastObservedSize := after }) found.2

/-- The apply sink of the flow-table controller. -/
def onFlowMod (message : ControlMessage) (w : FlowTableWorld CentralEnv) :
    Bool × FlowTableWorld CentralEnv :=
  if message.type ≠ .flowMod then
    (false, toCentral (raise "central controller emitted a non-FLOW_MOD update" (toTemporary w)))
  else
    let found := LocalRouteController.findExact message.pfx (toTemporary w)
    if found.1.isNone then
      (false, toCentral
        (raise "temporary entry disappeared before FLOW_MOD completion" found.2))
    else
      (true, toCentral
        (update (fun x => { x with flowModsObserved := x.flowModsObserved + 1 }) found.2))

/-- The SyncAck callback of the flow-table controller. -/
def onSyncAck (message : ControlMessage) (w : FlowTableWorld CentralEnv) :
    FlowTableWorld CentralEnv :=
  match complete message (toTemporary w) with
  | .ok w' => toCentral w'
  | .error error => toCentral (raise error (toTemporary w))

def centralCallbacks : FlowTableCallbacks CentralEnv where
  apply := some onFlowMod
  syncAck := some onSyncAck

/-- The request callback of the local controller. -/
def onRequest (tc : Nat) (message : ControlMessage) (w : ExperimentWorld) : ExperimentWorld :=
  if message.type ≠ .packetIn then
    raise "temporary controller emitted a non-PACKET_IN request" w
  else
    toTemporary (FlowTableController.submitFlowUpdate (centralConfig tc) centralCallbacks message
      (toCentral (update (fun x => { x with
        controlRequestsObserved := x.controlRequestsObserved + 1 }) w)))

def temporaryCallbacks (tc : Nat) : LocalCallbacks ExperimentEnv where
  request := some (onRequest tc)
  complete := some onSyncComplete

/-! ## Arrivals -/

/-- `/statim/temporary-fib-occupancy/prefix`. -/
def commonPrefix : Name :=
  [.generic [0x73, 0x74, 0x61, 0x74, 0x69, 0x6d],
    .generic [0x74, 0x65, 0x6d, 0x70, 0x6f, 0x72, 0x61, 0x72, 0x79, 0x2d, 0x66, 0x69, 0x62, 0x2d,
      0x6f, 0x63, 0x63, 0x75, 0x70, 0x61, 0x6e, 0x63, 0x79],
    .generic [0x70, 0x72, 0x65, 0x66, 0x69, 0x78]]

/-- The generated prefix, which ends with the number `id`. -/
def generatedPrefix (id : UInt64) : Name :=
  commonPrefix ++ [.generic (Component.nonNegativeInteger id)]

/-- `probe`. -/
def probe : Component := .generic [0x70, 0x72, 0x6f, 0x62, 0x65]

/-- `StatefulForwarder::applyTraceUpdate` of `m_module`. -/
def applyTraceUpdate (stdHash : Bytes → Nat) (tc : Nat) (pfx : Name) (portNumber : Port)
    (seq : Nat) (ttl : Int) (w : ExperimentWorld) : Except String (Bool × ExperimentWorld) := do
  let updated ← LocalRouteController.applyTraceUpdate temporaryConfig (temporaryCallbacks tc) pfx
    (PacketHeader.hashesOf stdHash pfx) (min pfx.length nameHashCount) portNumber seq ttl w
  let w ← settle updated.2
  return (updated.1, if updated.1 then
    update (fun x => { x with traceUpdatesAccepted := x.traceUpdatesAccepted + 1 }) w else w)

/-- `Arrive`. -/
def arrive (stdHash : Bytes → Nat) (tc : Nat) (id : UInt64) (w : ExperimentWorld) :
    Except String ExperimentWorld := do
  let now := seconds w.clock.now
  let w ← accountUntil now w
  verifyRealSize "before arrival" w
  let pfx := generatedPrefix id
  require (!w.env.members.arrivals.contains pfx) "duplicate generated prefix"
  let before := w.ctl.fibSize
  let port := id.toNat % 32 + 1
  let updated ← applyTraceUpdate stdHash tc pfx port (id + 1).toNat 0 w
  require updated.1 "unique trace update was rejected"
  let after := updated.2.ctl.fibSize
  require (decide (after = before + 1)) "temporary FIB size did not increase after insertion"
  let found := LocalRouteController.findExact pfx updated.2
  require found.1.isSome "inserted prefix is not exactly queryable"
  let longest := LocalRouteController.findLongestPrefix (pfx ++ [probe]) found.2
  require longest.1.isSome "inserted prefix is not longest-prefix queryable"
  return update (fun x => { x with
    insertLookupChecks := x.insertLookupChecks + 1
    arrivals := x.arrivals.insert pfx (id, now)
    lastObservedSize := after
    highWater := max x.highWater after }) longest.2

/-! ## The end of a run -/

/-- The counters that `Finish` compares with the number of arrivals. -/
def countersConsistent (arrivalCount : Nat) (w : ExperimentWorld) : Bool :=
  decide (w.env.members.traceUpdatesAccepted = arrivalCount ∧
    w.ctl.counters.tempUpdates = arrivalCount ∧
    w.ctl.counters.controlPackets = arrivalCount ∧
    w.ctl.counters.syncCompletions = arrivalCount ∧
    w.ctl.counters.controllerRetries = 0 ∧
    w.ctl.counters.temporaryRouteWithdrawals = 0 ∧
    w.env.central.counters .packetIns = arrivalCount ∧
    w.env.central.counters .flowModsApplied = arrivalCount ∧
    w.env.central.counters .syncAcksDropped = 0 ∧
    w.env.members.controlRequestsObserved = arrivalCount ∧
    w.env.members.flowModsObserved = arrivalCount ∧
    w.env.members.syncCompleteCallbacks = arrivalCount ∧
    w.env.members.insertLookupChecks = arrivalCount ∧
    w.env.members.deleteLookupChecks = arrivalCount)

/-- `Finish`. -/
def finish (endTime : ℚ) (arrivalCount : Nat) (w : ExperimentWorld) :
    Except String ExperimentWorld := do
  let w ← accountUntil endTime w
  verifyRealSize "at finish" w
  require (decide (w.ctl.fibSize = 0) && w.env.members.arrivals.isEmpty)
    "experiment ended with resident prefixes"
  require (decide (w.env.members.samples.length = arrivalCount))
    "not all prefixes produced residence samples"
  require (countersConsistent arrivalCount w)
    "implementation counters are inconsistent with arrival count"
  return w

/-! ## The simulator -/

/-- An event of the whole system. -/
inductive SystemEvent
  | driver (event : DriverEvent)
  | temporary (event : LocalEvent)
  | central (event : FlowTableEvent)
deriving DecidableEq, Repr

/-- The simulator queue. -/
def queue (w : ExperimentWorld) : List (Scheduled SystemEvent) :=
  w.env.members.driver.map (Scheduled.map .driver) ++
    (w.ctl.events.map (Scheduled.map .temporary) ++
      w.env.central.events.map (Scheduled.map .central))

/-- Take an event of `main` off the queue and set the clock to its time. -/
def takeDriver (e : Scheduled SystemEvent) (w : ExperimentWorld) : ExperimentWorld :=
  update (fun x => { x with driver := cancel e.uid x.driver })
    { w with clock := { w.clock with now := e.ts } }

/-- Run one event. -/
def fire (stdHash : Bytes → Nat) (tc : Nat) (e : Scheduled SystemEvent) (w : ExperimentWorld) :
    Except String ExperimentWorld :=
  match e.event with
  | .driver (.arrive id) => arrive stdHash tc id (takeDriver e w)
  | .driver .stop => .ok (update (fun x => { x with stopped := true }) (takeDriver e w))
  | .temporary event =>
    settle (LocalRouteController.fire temporaryConfig (temporaryCallbacks tc)
      ⟨e.ts, e.uid, event⟩ w)
  | .central event =>
    settle (toTemporary (FlowTableController.fire (centralConfig tc) centralCallbacks
      ⟨e.ts, e.uid, event⟩ (toCentral w)))

/-- The loop of `Simulator::Run`, for at most `fuel` events and up to the time `limit`. -/
def simulate (stdHash : Bytes → Nat) (tc : Nat) (limit : WithTop Nat) :
    Nat → ExperimentWorld → Except String ExperimentWorld
  | 0, w => .ok w
  | fuel + 1, w =>
    if w.env.members.stopped then .ok w
    else
      match earliest? (queue w) with
      | none => .ok w
      | some e =>
        if limit < WithTop.some e.ts then .ok w
        else fire stdHash tc e w >>= simulate stdHash tc limit fuel

/-- `Simulator::Schedule` for an event of `main`. -/
def scheduleDriver (delay : Nat) (event : DriverEvent) (w : ExperimentWorld) : ExperimentWorld :=
  update (fun x => { x with driver := x.driver ++ [w.clock.schedule delay event] })
    { w with clock := w.clock.next }

/-- A simulator and an experiment as they are constructed. -/
def blank : ExperimentWorld where
  clock := ⟨0, 0⟩
  ctl := {}
  log := []
  env := { central := {}, history := [], members := {} }

/-- What `main` schedules before the run. -/
def start (work : Workload) : ExperimentWorld :=
  scheduleDriver (work.horizon + 1) .stop
    (work.arrivals.foldl (fun w arrival => scheduleDriver arrival.2 (.arrive arrival.1) w) blank)

/-- The row of the summary file, as far as the analysis reads it. -/
structure Summary where
  seed : Nat
  tc : ℚ
  arrivalCount : Nat
  horizon : ℚ
  highWater : Nat
  timeWeightedMean : ℚ
  occupancyArea : ℚ
deriving DecidableEq, Repr

/-- The end of `main`. -/
def summarize (seed : Nat) (work : Workload) (w : ExperimentWorld) : Except String Summary := do
  let exactExpectedArea := work.arrivals.length * seconds work.tc
  let areaError := w.env.members.area - exactExpectedArea
  require (decide (|areaError| ≤ max (1 / 10 ^ 8) (exactExpectedArea / 10 ^ 10)))
    "temporary FIB occupancy integral does not equal sum of residence times"
  return {
    seed := seed
    tc := seconds work.tc
    arrivalCount := work.arrivals.length
    horizon := seconds work.horizon
    highWater := w.env.members.highWater
    timeWeightedMean := w.env.members.area / seconds work.horizon
    occupancyArea := w.env.members.area }

/-- `main` from the start of the run, which processes at most `fuel` events. -/
def runMain (stdHash : Bytes → Nat) (seed fuel : Nat) (work : Workload) :
    Except String (ExperimentWorld × Summary) := do
  let w ← simulate stdHash work.tc ⊤ fuel (start work)
  let w ← finish (seconds work.horizon) work.arrivals.length w
  let summary ← summarize seed work w
  return (w, summary)

/-- Whether the temporary FIB holds a generated prefix. -/
def resident (w : ExperimentWorld) (id : UInt64) : Bool :=
  (LocalRouteController.findExact (generatedPrefix id) w).1.isSome

/-- The number of prefixes that are resident at a time. -/
def occupancy (stdHash : Bytes → Nat) (work : Workload) (t : Nat) : Nat :=
  match simulate stdHash work.tc (WithTop.some t) (2 * work.arrivals.length + 1) (start work) with
  | .ok w => work.arrivals.countP fun x => resident w x.1
  | .error _ => 0

end Statim.Occupancy
