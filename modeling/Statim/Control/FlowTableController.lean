import Statim.Control.Message
import Statim.Support.Schedule

/-!
# Flow-table controller

`FlowTableController` receives PacketIn messages, schedules a FlowMod for each
accepted one, and reports a completed installation with a SyncAck.  The three
legs of the exchange lose, delay and reorder messages; with the generation guard
the controller keeps the highest accepted and applied generation per prefix.

The apply sink and the SyncAck callback are functions of the whole
`FlowTableWorld`, since they run code of the surroundings in the middle of a
handler.
-/

namespace Statim

open Support

/-- The settings of a `FlowTableController`.  Loss rates, drop budgets, jitter
and delay profiles only decide the outcome of each draw, so they appear as the
outcomes themselves: `drop p n` and `delay p n` answer the `n`-th draw of a run
that is made for prefix `p`. -/
structure FlowTableConfig where
  generationGuardEnabled : Bool
  drop : Name → Nat → Bool
  delay : Name → Nat → Nat

/-- The members of `FlowTableController::Counters`. -/
inductive FlowTableCounter
  | packetIns
  | packetInsDelivered
  | packetInsDropped
  | duplicatePacketIns
  | stalePacketInsRejected
  | conflictingPacketInsRejected
  | flowModAttempts
  | flowModsApplied
  | flowModsDropped
  | flowModsNoApplySink
  | staleFlowModEventsSuppressed
  | duplicateFlowModEventsSuppressed
  | syncAckAttempts
  | syncAcksSent
  | syncAcksDropped
  | idempotentAckReplays
  | expiredPacketInsRejected
  | expiredFlowModsRejected
  | expiredSyncAcksSuppressed
  | flowModsRejectedBySink
deriving DecidableEq, Repr

/-- A default-constructed `ControlMessage`. -/
def ControlMessage.blank : ControlMessage where
  type := .packetIn
  nameHashes := []
  prefixLen := 0
  outputPort := 0
  pfx := []
  seq := 0
  routeExpiry := 0
  origin := 0

/-- What the guard remembers of one prefix. -/
structure PrefixState where
  hasAccepted : Bool := false
  highestAccepted : Nat := 0
  acceptedMessage : ControlMessage := .blank
  hasApplied : Bool := false
  highestApplied : Nat := 0
  appliedMessage : ControlMessage := .blank
deriving DecidableEq, Repr

/-- The state after a new generation is accepted. -/
def PrefixState.accept (state : PrefixState) (message : ControlMessage) : PrefixState :=
  { state with
    hasAccepted := true
    highestAccepted := message.seq
    acceptedMessage := message }

/-- The state after the sink applied a generation. -/
def PrefixState.apply (state : PrefixState) (message : ControlMessage) : PrefixState :=
  { state with
    hasApplied := true
    highestApplied := message.seq
    appliedMessage := message }

/-- The events the controller schedules. -/
inductive FlowTableEvent
  | acceptControl (message : ControlMessage)
  | attemptFlowMod (message : ControlMessage)
  | deliverSyncAck (message : ControlMessage)
deriving DecidableEq, Repr

def FlowTableEvent.message : FlowTableEvent → ControlMessage
  | .acceptControl m => m
  | .attemptFlowMod m => m
  | .deliverSyncAck m => m

structure FlowTableController where
  prefixStates : Std.TreeMap Name PrefixState := ∅
  counters : FlowTableCounter → Nat := fun _ => 0
  /-- The controller's share of the simulator queue. -/
  events : List (Scheduled FlowTableEvent) := []
  /-- How many random choices were made so far for each prefix. -/
  draws : Name → Nat := fun _ => 0

/-- What the controller lets its surroundings see: a PacketIn that passes every
check of `acceptControl`, a FlowMod for which the sink answered true, and a
SyncAck handed to the callback. -/
inductive FlowTableObs
  | accepted (message : ControlMessage)
  | applied (message : ControlMessage)
  | acked (time : Nat) (message : ControlMessage)
deriving DecidableEq, Repr

structure FlowTableWorld (σ : Type) where
  clock : Clock
  ctl : FlowTableController
  log : List FlowTableObs
  env : σ

/-- `FlowModApplyCallback` and `SyncAckCallback`; `none` is an empty
`std::function`. -/
structure FlowTableCallbacks (σ : Type) where
  apply : Option (ControlMessage → FlowTableWorld σ → Bool × FlowTableWorld σ)
  syncAck : Option (ControlMessage → FlowTableWorld σ → FlowTableWorld σ)

namespace FlowTableController

variable {σ : Type}

/-- Increment one counter. -/
def count (c : FlowTableCounter) (w : FlowTableWorld σ) : FlowTableWorld σ :=
  { w with ctl := { w.ctl with
    counters := fun c' => if c' = c then w.ctl.counters c' + 1 else w.ctl.counters c' } }

/-- `Simulator::Schedule` for one of the controller's events. -/
def schedule (delay : Nat) (event : FlowTableEvent) (w : FlowTableWorld σ) :
    FlowTableWorld σ :=
  { w with
    clock := w.clock.next
    ctl := { w.ctl with events := w.ctl.events ++ [w.clock.schedule delay event] } }

/-- Use up one draw for a prefix. -/
def draw (pfx : Name) (w : FlowTableWorld σ) : FlowTableWorld σ :=
  { w with ctl := { w.ctl with
    draws := fun p => if p = pfx then w.ctl.draws p + 1 else w.ctl.draws p } }

/-- `FlowTableController::shouldDrop`. -/
def shouldDrop (cfg : FlowTableConfig) (pfx : Name) (w : FlowTableWorld σ) :
    Bool × FlowTableWorld σ :=
  (cfg.drop pfx (w.ctl.draws pfx), draw pfx w)

/-- `FlowTableController::sampleDelay`; a sampled delay is never negative. -/
def sampleDelay (cfg : FlowTableConfig) (pfx : Name) (w : FlowTableWorld σ) :
    Nat × FlowTableWorld σ :=
  (cfg.delay pfx (w.ctl.draws pfx), draw pfx w)

/-- Hand a SyncAck to the callback. -/
def handOver (cbs : FlowTableCallbacks σ) (ack : ControlMessage) (w : FlowTableWorld σ) :
    FlowTableWorld σ :=
  match cbs.syncAck with
  | none => w
  | some callback => callback ack { w with log := w.log ++ [.acked w.clock.now ack] }

/-- `FlowTableController::deliverSyncAck`. -/
def deliverSyncAck (cfg : FlowTableConfig) (cbs : FlowTableCallbacks σ)
    (message : ControlMessage) (w : FlowTableWorld σ) : FlowTableWorld σ :=
  let w := count .syncAckAttempts w
  if message.isExpiredAt w.clock.now then count .expiredSyncAcksSuppressed w
  else
    let draw := shouldDrop cfg message.pfx w
    if draw.1 then count .syncAcksDropped draw.2
    else count .syncAcksSent (handOver cbs { message with type := .syncAck } draw.2)

/-- `scheduleSyncAck` after the replay has been counted. -/
def sendSyncAck (cfg : FlowTableConfig) (cbs : FlowTableCallbacks σ)
    (message : ControlMessage) (w : FlowTableWorld σ) : FlowTableWorld σ :=
  let draw := sampleDelay cfg message.pfx w
  if draw.1 = 0 then deliverSyncAck cfg cbs message draw.2
  else schedule draw.1 (.deliverSyncAck message) draw.2

/-- `FlowTableController::scheduleSyncAck`. -/
def scheduleSyncAck (cfg : FlowTableConfig) (cbs : FlowTableCallbacks σ)
    (message : ControlMessage) (replay : Bool) (w : FlowTableWorld σ) : FlowTableWorld σ :=
  if replay then sendSyncAck cfg cbs message (count .idempotentAckReplays w)
  else sendSyncAck cfg cbs message w

/-- The end of `acceptControl`: the message is accepted and its FlowMod
scheduled. -/
def scheduleFlowMod (cfg : FlowTableConfig) (message : ControlMessage)
    (w : FlowTableWorld σ) : FlowTableWorld σ :=
  let draw := sampleDelay cfg message.pfx { w with log := w.log ++ [.accepted message] }
  schedule draw.1 (.attemptFlowMod message) draw.2

/-- `FlowTableController::acceptControl`. -/
def acceptControl (cfg : FlowTableConfig) (cbs : FlowTableCallbacks σ)
    (message : ControlMessage) (w : FlowTableWorld σ) : FlowTableWorld σ :=
  let w := count .packetInsDelivered w
  if message.isExpiredAt w.clock.now then count .expiredPacketInsRejected w
  else if cfg.generationGuardEnabled then
    -- `operator[]` creates the state of a new prefix
    let state := w.ctl.prefixStates[message.pfx]?.getD {}
    let w := { w with ctl := { w.ctl with
      prefixStates := w.ctl.prefixStates.insert message.pfx state } }
    if state.hasAccepted ∧ message.seq < state.highestAccepted then
      count .stalePacketInsRejected w
    else if state.hasAccepted ∧ message.seq = state.highestAccepted then
      let w := count .duplicatePacketIns w
      if !message.sameUpdate state.acceptedMessage then
        count .conflictingPacketInsRejected w
      else if state.hasApplied ∧ state.highestApplied = message.seq then
        scheduleSyncAck cfg cbs message true w
      else
        -- a retry of an accepted, pending generation can recover a lost FlowMod
        scheduleFlowMod cfg message w
    else
      scheduleFlowMod cfg message { w with ctl := { w.ctl with
        prefixStates := w.ctl.prefixStates.insert message.pfx (state.accept message) } }
  else
    scheduleFlowMod cfg message w

/-- `FlowTableController::submitFlowUpdate`. -/
def submitFlowUpdate (cfg : FlowTableConfig) (cbs : FlowTableCallbacks σ)
    (message : ControlMessage) (w : FlowTableWorld σ) : FlowTableWorld σ :=
  let w := count .packetIns w
  let draw := shouldDrop cfg message.pfx w
  if draw.1 then count .packetInsDropped draw.2
  else
    let draw := sampleDelay cfg message.pfx draw.2
    if draw.1 = 0 then acceptControl cfg cbs message draw.2
    else schedule draw.1 (.acceptControl message) draw.2

/-- Record an application in the guard's state. -/
def recordApplied (cfg : FlowTableConfig) (message : ControlMessage)
    (ctl : FlowTableController) : FlowTableController :=
  if cfg.generationGuardEnabled then
    let state := ctl.prefixStates[message.pfx]?.getD {}
    { ctl with prefixStates := ctl.prefixStates.insert message.pfx (state.apply message) }
  else ctl

/-- `attemptFlowMod` from the apply sink on. -/
def applyFlowMod (cfg : FlowTableConfig) (cbs : FlowTableCallbacks σ)
    (message : ControlMessage) (w : FlowTableWorld σ) : FlowTableWorld σ :=
  match cbs.apply with
  | none => count .flowModsNoApplySink w
  | some apply =>
    let flowMod := { message with type := .flowMod }
    let answer := apply flowMod w
    if !answer.1 then count .flowModsRejectedBySink answer.2
    else
      let w := count .flowModsApplied answer.2
      scheduleSyncAck cfg cbs message false { w with
        log := w.log ++ [.applied flowMod]
        ctl := recordApplied cfg message w.ctl }

/-- `attemptFlowMod` after the guard. -/
def sendFlowMod (cfg : FlowTableConfig) (cbs : FlowTableCallbacks σ)
    (message : ControlMessage) (w : FlowTableWorld σ) : FlowTableWorld σ :=
  let draw := shouldDrop cfg message.pfx w
  if draw.1 then count .flowModsDropped draw.2
  else applyFlowMod cfg cbs message draw.2

/-- The generation check of `attemptFlowMod` for a stale event. -/
def isStaleFlowMod (message : ControlMessage) (ctl : FlowTableController) : Bool :=
  match ctl.prefixStates[message.pfx]? with
  | none => true
  | some state => !state.hasAccepted || decide (message.seq < state.highestAccepted)

/-- The generation check of `attemptFlowMod` for a generation already applied. -/
def isAppliedFlowMod (message : ControlMessage) (ctl : FlowTableController) : Bool :=
  match ctl.prefixStates[message.pfx]? with
  | none => false
  | some state => state.hasApplied && decide (state.highestApplied = message.seq)

/-- `FlowTableController::attemptFlowMod`. -/
def attemptFlowMod (cfg : FlowTableConfig) (cbs : FlowTableCallbacks σ)
    (message : ControlMessage) (w : FlowTableWorld σ) : FlowTableWorld σ :=
  let w := count .flowModAttempts w
  if message.isExpiredAt w.clock.now then count .expiredFlowModsRejected w
  else if cfg.generationGuardEnabled && isStaleFlowMod message w.ctl then
    count .staleFlowModEventsSuppressed w
  else if cfg.generationGuardEnabled && isAppliedFlowMod message w.ctl then
    scheduleSyncAck cfg cbs message true (count .duplicateFlowModEventsSuppressed w)
  else sendFlowMod cfg cbs message w

/-- Take an event off the queue and set the clock to its time. -/
def take (e : Scheduled FlowTableEvent) (w : FlowTableWorld σ) : FlowTableWorld σ :=
  { w with
    clock := { w.clock with now := e.ts }
    ctl := { w.ctl with events := cancel e.uid w.ctl.events } }

/-- Run the handler of an event. -/
def handle (cfg : FlowTableConfig) (cbs : FlowTableCallbacks σ) (event : FlowTableEvent)
    (w : FlowTableWorld σ) : FlowTableWorld σ :=
  match event with
  | .acceptControl m => acceptControl cfg cbs m w
  | .attemptFlowMod m => attemptFlowMod cfg cbs m w
  | .deliverSyncAck m => deliverSyncAck cfg cbs m w

/-- Run one of the controller's events. -/
def fire (cfg : FlowTableConfig) (cbs : FlowTableCallbacks σ)
    (e : Scheduled FlowTableEvent) (w : FlowTableWorld σ) : FlowTableWorld σ :=
  handle cfg cbs e.event (take e w)

def getHighestAccepted (ctl : FlowTableController) (pfx : Name) : Option Nat :=
  ctl.prefixStates[pfx]?.bind fun state =>
    if state.hasAccepted then some state.highestAccepted else none

/-- `getHighestApplied`: the generation and its output port. -/
def getHighestApplied (ctl : FlowTableController) (pfx : Name) : Option (Nat × Port) :=
  ctl.prefixStates[pfx]?.bind fun state =>
    if state.hasApplied then some (state.highestApplied, state.appliedMessage.outputPort)
    else none

end FlowTableController

end Statim
