import Statim.Engine.Loop
import Statim.State.PendingInterestTable
import Statim.Stateful.ContentStore

/-!
# Forwarding engine

`ForwardingEngine` receives packets from its ports, keeps the pending Interest
table and the content store, and drives the control loop with Trace Data.  The
engine's own state is the part of the loop's world that the loop does not
touch.

The handlers that may throw return the state in which they do so, since
`onReceiveRawPacket` catches `tlv::Error` and goes on from there; whatever else
is thrown ends the simulation.
-/

namespace Statim

open Support

/-! ## Packets on the wire -/

/-- What the NDN decoders make of the octets behind the Statim header; they report
malformed TLV by a `tlv::Error`. -/
inductive Payload
  | interest (name : Name) (selectors : Selectors) (nonce : Bytes)
      (lifetime : Option UInt64)
  | data (name : Name) (wire : Bytes)
  | other
  | malformed
deriving DecidableEq, Repr

/-- A received packet; `header` has fewer than twelve octets if the packet has. -/
structure RawPacket where
  header : Bytes
  payload : Payload
deriving DecidableEq, Repr

/-! ## State -/

/-- The settings of a `ForwardingEngine`.  `word32 n old` is the word that the `n`-th
`refreshNonce` draws. -/
structure EngineConfig where
  loop : LoopConfig
  statefulDelay : Nat
  configuredFlowTableLifetime : Time
  configuredTemporaryLifetime : Time
  enableTemporaryFib : Bool
  enableInterestReforwarding : Bool
  interestReforwardingLimit : Int
  coin : Nat → Bool
  word32 : Nat → UInt32 → UInt32
  /-- `setTemporaryFibEntryLifetime` hands its value on. -/
  entryLifetime_eq : loop.temporary.entryLifetime = configuredTemporaryLifetime
  /-- `setGenerationGuardEnabled` sets both guards. -/
  guards_eq : loop.temporary.generationGuardEnabled = loop.central.generationGuardEnabled
  word32_ne : ∀ n old, word32 n old ≠ old

/-- The events the engine schedules. -/
inductive EngineEvent
  | processInterestAfterDelay (inPort : Port) (interest : Interest) (header : PacketHeader)
  | processDataAfterDelay (inPort : Port) (data : Data) (header : PacketHeader)
  | doDelayedPullSend (interest : Interest) (port : Port)
deriving DecidableEq, Repr

/-- The members of `ForwardingEngine::Counters` apart from `flowTableUpdatesApplied`,
which the loop keeps, and `traceInterestsHandled`, which is telemetry. -/
inductive EngineCounter
  | interestsReceived
  | dataReceived
  | traceUpdatesHandled
  | temporaryFibInterestTransmissions
  | flowTableFibInterestTransmissions
  | statimLookupMisses
  | noRouteRejections
  | pendingPullsScheduled
  | pendingPullsSent
  | pullInvocations
  | csHits
  | pitDuplicates
  | malformedPackets
deriving DecidableEq, Repr

/-- What the engine lets its surroundings see: an Interest accepted by the pending
Interest table, and the packets handed to `sendToPort`. -/
inductive EngineObs
  | accepted (port : Port) (name : Name)
  | sentData (port : Port) (data : Data)
  | sentInterest (port : Port) (name : Name) (selectors : Selectors) (nonce : Bytes)
      (lifetime : Int)
deriving DecidableEq, Repr

structure EngineState where
  pit : PendingInterestTable
  cs : ContentStore
  buffers : Buffers
  /-- How many nonces were refreshed. -/
  words : Nat
  /-- The engine's share of the simulator queue. -/
  events : List (Scheduled EngineEvent)
  counters : EngineCounter → Nat
  log : List EngineObs

abbrev EngineWorld := LoopWorld EngineState

/-- What an engine handler throws. -/
inductive Raised
  | tlvError
  | invalidArgument (message : String)
deriving DecidableEq, Repr

/-- The outcome of a handler. -/
abbrev Handled := Except (Raised × EngineWorld) EngineWorld

/-- The state after a handler, thrown or not. -/
def Handled.world : Handled → EngineWorld
  | .ok w => w
  | .error e => e.2

namespace ForwardingEngine

/-- Change the engine's own state. -/
def modify (f : EngineState → EngineState) (w : EngineWorld) : EngineWorld :=
  { w with env := { w.env with rest := f w.env.rest } }

/-- Increment one counter. -/
def count (c : EngineCounter) (w : EngineWorld) : EngineWorld :=
  modify (fun s => { s with
    counters := fun c' => if c' = c then s.counters c' + 1 else s.counters c' }) w

/-- Record an observation. -/
def note (o : EngineObs) (w : EngineWorld) : EngineWorld :=
  modify (fun s => { s with log := s.log ++ [o] }) w

/-- `Simulator::Schedule` for one of the engine's events. -/
def schedule (delay : Nat) (event : EngineEvent) (w : EngineWorld) : EngineWorld :=
  modify (fun s => { s with events := s.events ++ [w.clock.schedule delay event] })
    { w with clock := w.clock.next }

/-- Replace the pending Interest table. -/
def setPit (pit : PendingInterestTable) (w : EngineWorld) : EngineWorld :=
  modify (fun s => { s with pit := pit }) w

/-! ## Transmission -/

/-- An encoded Interest leaves by a port. -/
def noteInterest (port : Port) (encoded : Interest) (w : EngineWorld) : EngineWorld :=
  note (.sentInterest port encoded.name encoded.selectors
    (encoded.nonceValue w.env.rest.buffers) encoded.lifetime) w

/-- `ForwardingEngine::sendInterestToPort`. -/
def sendInterestToPort (port : Port) (interest : Interest) (w : EngineWorld) : Handled :=
  match interest.wireEncode with
  | none => .error (.tlvError, w)
  | some encoded => .ok (noteInterest port encoded w)

/-- `ForwardingEngine::sendDataToPort`. -/
def sendDataToPort (port : Port) (data : Data) (w : EngineWorld) : EngineWorld :=
  note (.sentData port data) w

/-! ## Interests -/

/-- `ForwardingEngine::processStatefulInterest`. -/
def processStatefulInterest (cfg : EngineConfig) (inPort : Port) (interest : Interest)
    (header : PacketHeader) (w : EngineWorld) : Handled :=
  let w := count .interestsReceived w
  match w.env.rest.pit.insert w.env.rest.buffers w.clock.now interest inPort with
  | none => .error (.tlvError, w)
  | some (result, pit) =>
    let w := setPit pit w
    if !result.accepted then .ok (count .pitDuplicates w)
    else
      let w := note (.accepted inPort interest.name) w
      match w.env.rest.cs.find interest.name with
      | some cached => .ok (sendDataToPort inPort cached (count .csHits w))
      | none =>
        let header := (header.computeNameHashes cfg.loop.stdHash interest.name).setPacketInPort
          (UInt16.ofNat inPort)
        .ok (schedule cfg.statefulDelay (.processInterestAfterDelay inPort interest header) w)

/-- Count a transmission of `processInterestAfterDelay`. -/
def countTransmission (usedTemporaryFib : Bool) (w : EngineWorld) : EngineWorld :=
  count (if usedTemporaryFib then .temporaryFibInterestTransmissions
    else .flowTableFibInterestTransmissions) w

/-- The loop of `processInterestAfterDelay`. -/
def forwardInterests (usedTemporaryFib : Bool) (interest : Interest) :
    List Port → EngineWorld → Handled
  | [], w => .ok w
  | port :: rest, w =>
    match sendInterestToPort port interest (countTransmission usedTemporaryFib w) with
    | .error e => .error e
    | .ok w => forwardInterests usedTemporaryFib interest rest w

/-- `ForwardingEngine::processInterestAfterDelay`. -/
def processInterestAfterDelay (cfg : EngineConfig) (inPort : Port) (interest : Interest)
    (header : PacketHeader) (w : EngineWorld) : Handled :=
  let usedTemporaryFib := cfg.enableTemporaryFib &&
    (LocalRouteController.findLongestPrefix interest.name w).1.isSome
  let route := Loop.selectRoute cfg.loop cfg.enableTemporaryFib interest.name header w
  match route.1 with
  | none => .ok (count .statimLookupMisses route.2)
  | some pass2 =>
    if pass2.dropped || pass2.outputPorts.isEmpty then
      .ok (count .noRouteRejections (count .statimLookupMisses route.2))
    else
      forwardInterests usedTemporaryFib interest
        (pass2.outputPorts.toList.filter (· ≠ inPort)) route.2

/-! ## Reforwarding -/

/-- Remember a refreshed Interest and schedule its transmission. -/
def schedulePull (retx : Interest) (buffers : Buffers) (newPort : Port) (w : EngineWorld) :
    EngineWorld :=
  schedule 0 (.doDelayedPullSend retx newPort)
    (count .pendingPullsScheduled
      (modify (fun s => { s with buffers := buffers, words := s.words + 1 }) w))

/-- The loop of `pullPendingInterests`. -/
def pullAll (cfg : EngineConfig) (newPort : Port) : List Interest → EngineWorld → Handled
  | [], w => .ok w
  | pending :: rest, w =>
    match pending.refreshNonce (cfg.word32 w.env.rest.words) w.env.rest.buffers with
    | none => .error (.tlvError, w)
    | some (retx, buffers) => pullAll cfg newPort rest (schedulePull retx buffers newPort w)

/-- The Interests that `pullPendingInterests` sends again. -/
def pulled (cfg : EngineConfig) (pfx : Name) (w : EngineWorld) : List Interest :=
  (w.env.rest.pit.findByPrefix pfx).take cfg.interestReforwardingLimit.toNat

/-- `ForwardingEngine::pullPendingInterests`. -/
def pullPendingInterests (cfg : EngineConfig) (pfx : Name) (newPort : Port)
    (w : EngineWorld) : Handled :=
  let w := count .pullInvocations w
  pullAll cfg newPort (pulled cfg pfx w) w

/-- `ForwardingEngine::doDelayedPullSend`. -/
def doDelayedPullSend (interest : Interest) (port : Port) (w : EngineWorld) : Handled :=
  sendInterestToPort port interest (count .pendingPullsSent w)

/-! ## Trace Data -/

/-- `validateRouteLifetime` does not throw. -/
def isValidRouteLifetime (cfg : EngineConfig) (lifetime : Time) : Bool :=
  !((decide (0 < cfg.configuredFlowTableLifetime) &&
      decide (lifetime ≠ cfg.configuredFlowTableLifetime)) ||
    (decide (0 < cfg.configuredTemporaryLifetime) &&
      decide (lifetime ≠ cfg.configuredTemporaryLifetime)))

/-- One round of the loop of `handleTraceData`. -/
def learnPort (cfg : EngineConfig) (pfx : Name) (seq : Nat) (lifetime : Int) (port : Port)
    (w : EngineWorld) : Handled :=
  match Loop.applyTraceUpdate cfg.loop pfx port seq lifetime w with
  | .error message => .error (.invalidArgument message, w)
  | .ok (updated, w) =>
    if updated && cfg.enableInterestReforwarding then pullPendingInterests cfg pfx port w
    else .ok w

/-- The loop of `handleTraceData`. -/
def learnPorts (cfg : EngineConfig) (pfx : Name) (seq : Nat) (lifetime : Int) :
    List Port → EngineWorld → Handled
  | [], w => .ok w
  | port :: rest, w =>
    match learnPort cfg pfx seq lifetime port w with
    | .error e => .error e
    | .ok w => learnPorts cfg pfx seq lifetime rest w

/-- `ForwardingEngine::handleTraceData`; the lifetime is in microseconds. -/
def handleTraceData (cfg : EngineConfig) (data : Data) (returnPorts : Std.TreeSet Port)
    (lifetime : Int) (w : EngineWorld) : Handled :=
  if !isValidRouteLifetime cfg (wrap64 (lifetime * 1000)) then
    .error (.invalidArgument "Both configured FIB lifetimes must equal the saved TI lifetime", w)
  else
    match data.name.getTraceSequence with
    | none => .error (.tlvError, w)
    | some seq =>
      let pfx := data.name.extractDataNameFromTrace
      if pfx = [] then .ok w
      else learnPorts cfg pfx seq lifetime returnPorts.toList (count .traceUpdatesHandled w)

/-! ## Data -/

/-- `ForwardingEngine::processStatefulData`. -/
def processStatefulData (cfg : EngineConfig) (inPort : Port) (data : Data)
    (header : PacketHeader) (w : EngineWorld) : Handled :=
  let w := count .dataReceived w
  let hopCount := header.switchId + 1
  .ok (schedule cfg.statefulDelay (.processDataAfterDelay inPort
    { data with hopCount := some hopCount } (header.setSwitchId hopCount)) w)

/-- The lifetime of the saved Trace Interest, in microseconds; zero if there is none. -/
def savedLifetime (name : Name) (pit : PendingInterestTable) : Int :=
  match (pit.findByPrefix name).find? fun pending => pending.name = name with
  | none => 0
  | some pending => toMicroseconds pending.lifetime

/-- The header of outgoing Data. -/
def dataHeader (cfg : EngineConfig) (name : Name) (returnPorts : Std.TreeSet Port)
    (header : PacketHeader) : PacketHeader :=
  ((header.computeNameHashes cfg.loop.stdHash name).setType PacketType.data).setOutPorts
    (encodeOutPortsMask returnPorts.toList)

/-- The end of `processDataAfterDelay`: the second pass and the transmissions. -/
def forwardData (cfg : EngineConfig) (data : Data) (returnPorts : Std.TreeSet Port)
    (header : PacketHeader) (w : EngineWorld) : EngineWorld :=
  let pass2 := w.env.switch.processPacket w.clock.now
    (dataHeader cfg data.name returnPorts header)
  if pass2.dropped || pass2.outputPorts.isEmpty then w
  else pass2.outputPorts.toList.foldl (fun w port => sendDataToPort port data w) w

/-- `ForwardingEngine::processDataAfterDelay`. -/
def processDataAfterDelay (cfg : EngineConfig) (data : Data) (header : PacketHeader)
    (w : EngineWorld) : Handled :=
  let isTrace := data.name.judgeNameIsTrace
  -- the saved Trace Interest supplies the lease before Data consumes its record
  let routeLifetime := if isTrace then savedLifetime data.name w.env.rest.pit else 0
  let taken := w.env.rest.pit.takeDataMatchPorts data.name
  let w := setPit taken.2 w
  if taken.1.isEmpty then .ok w
  else if isTrace then
    if routeLifetime ≤ 0 then .ok (count .malformedPackets w)
    else
      match handleTraceData cfg data taken.1 routeLifetime w with
      | .error e => .error e
      | .ok w => .ok (forwardData cfg data taken.1 header w)
  else
    .ok (forwardData cfg data taken.1 header
      (modify (fun s => { s with cs := s.cs.insert cfg.coin data }) w))

/-! ## Reception and events -/

/-- The `try` block of `onReceiveRawPacket`. -/
def processPayload (cfg : EngineConfig) (inPort : Port) (header : PacketHeader)
    (payload : Payload) (w : EngineWorld) : Handled :=
  match payload with
  | .interest name selectors nonce lifetime =>
    let decoded := Interest.decode name selectors nonce lifetime w.env.rest.buffers
    processStatefulInterest cfg inPort decoded.1 header
      (modify (fun s => { s with buffers := decoded.2 }) w)
  | .data name wire => processStatefulData cfg inPort ⟨name, wire, none⟩ header w
  | .other => .ok (count .malformedPackets w)
  | .malformed => .error (.tlvError, w)

/-- The `catch` clause of `onReceiveRawPacket`. -/
def discardMalformed : Handled → Handled
  | .error (.tlvError, w) => .ok (count .malformedPackets w)
  | r => r

/-- `ForwardingEngine::onReceiveRawPacket`. -/
def onReceiveRawPacket (cfg : EngineConfig) (inPort : Port) (packet : RawPacket)
    (w : EngineWorld) : Handled :=
  match PacketHeader.deserialize packet.header with
  | none => .ok (count .malformedPackets w)
  | some header =>
    let pass1 := w.env.switch.processPacket w.clock.now
      (header.setPacketInPort (UInt16.ofNat inPort))
    if pass1.packetIn then .ok w
    else if pass1.outputPorts.contains statefulModule then
      -- `RemoveHeader` reads the header once more
      discardMalformed (processPayload cfg inPort header packet.payload w)
    else .ok (count .noRouteRejections w)

/-- Run the handler of an event. -/
def handle (cfg : EngineConfig) (event : EngineEvent) (w : EngineWorld) : Handled :=
  match event with
  | .processInterestAfterDelay inPort interest header =>
    processInterestAfterDelay cfg inPort interest header w
  | .processDataAfterDelay _ data header => processDataAfterDelay cfg data header w
  | .doDelayedPullSend interest port => doDelayedPullSend interest port w

/-- Take an event off the queue and set the clock to its time. -/
def take (e : Scheduled EngineEvent) (w : EngineWorld) : EngineWorld :=
  modify (fun s => { s with events := cancel e.uid s.events })
    { w with clock := { w.clock with now := e.ts } }

/-- Run one of the engine's events. -/
def fire (cfg : EngineConfig) (e : Scheduled EngineEvent) (w : EngineWorld) : Handled :=
  handle cfg e.event (take e w)

end ForwardingEngine

end Statim
