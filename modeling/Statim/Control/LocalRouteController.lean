import Statim.Control.Message
import Statim.Support.Schedule

/-!
# Local route controller

`LocalRouteController` admits Trace updates, owns the temporary FIB, and keeps
one pending control request per prefix until a SyncAck, the lease timer or the
end of the retry budget retires it.

The callbacks of the source may run code of the surroundings in the middle of
a handler, so handlers act on a whole `LocalWorld`: the simulator clock, the
controller, its observable history, and an arbitrary environment `ω`.  The
events of the simulator queue that belong to the controller are stored with
it.  The custom clock that ndnSIM installs makes `StateClock::now()` the
simulator time.
-/

namespace Statim

open Support

/-- The settings of a `LocalRouteController`. -/
structure LocalConfig where
  entryLifetime : Time
  controllerRetryTimeout : Time
  controllerRetryLimit : Int
  generationGuardEnabled : Bool
deriving DecidableEq, Repr

/-- `LocalRouteController::Counters`. -/
structure LocalCounters where
  tempUpdates : Nat := 0
  controlPackets : Nat := 0
  syncCompletions : Nat := 0
  staleTraceUpdatesRejected : Nat := 0
  staleSyncAcksRejected : Nat := 0
  noPendingSyncAcksRejected : Nat := 0
  controllerRetries : Nat := 0
  temporaryRouteWithdrawals : Nat := 0
  expiredSyncAcksRejected : Nat := 0
deriving DecidableEq, Repr

/-- The events the controller schedules. -/
inductive LocalEvent
  | expireEntryBySeq (pfx : Name) (seq : Nat)
  | onControllerRetryTimeout (pfx : Name) (seq : Nat)
deriving DecidableEq, Repr

def LocalEvent.pfx : LocalEvent → Name
  | .expireEntryBySeq pfx _ => pfx
  | .onControllerRetryTimeout pfx _ => pfx

structure PendingControllerRequest where
  seq : Nat
  retriesLeft : Int
  timer : Nat
  msg : ControlMessage

structure LocalRouteController where
  temporaryFib : TemporaryForwardingTable := .empty
  seqMap : Std.TreeMap Name Nat := ∅
  highestSeenSeq : Std.TreeMap Name Nat := ∅
  routeExpiries : Std.TreeMap Name Time := ∅
  lifetimeTimers : Std.TreeMap Name Nat := ∅
  pendingControllerRequests : Std.TreeMap Name PendingControllerRequest := ∅
  counters : LocalCounters := {}
  /-- The controller's share of the simulator queue. -/
  events : List (Scheduled LocalEvent) := []

/-- One accepted Trace update. -/
structure Admission where
  pfx : Name
  nameHashes : Bytes
  prefixLen : Nat
  port : Port
  seq : Nat
  lifetime : Time
  time : Nat
  /-- How many updates of `pfx` were admitted before. -/
  origin : Nat
deriving DecidableEq, Repr

namespace Admission

/-- The deadline recorded in `m_routeExpiries` and sent to the controller. -/
def routeExpiry (u : Admission) : Time :=
  if 0 < u.lifetime then wrap64 (u.time + u.lifetime) else 0

/-- The deadline stored in the temporary FIB. -/
def tableDeadline (u : Admission) : Time :=
  if 0 < u.lifetime then wrap64 (u.time + u.lifetime) else timePointMax

/-- The control request of an admitted update. -/
def packetIn (u : Admission) : ControlMessage where
  type := .packetIn
  nameHashes := u.nameHashes
  prefixLen := u.prefixLen
  outputPort := u.port
  pfx := u.pfx
  seq := u.seq
  routeExpiry := u.routeExpiry
  origin := u.origin

end Admission

/-- What the controller lets its surroundings see: an `applyTraceUpdate` that
answers true, a call of the request callback, a `handleControlResponse` that
answers true (with the generation, the deadline and the ports that were
resident), and the line written when a route is withdrawn. -/
inductive LocalObs
  | admitted (u : Admission)
  | request (time : Nat) (msg : ControlMessage)
  | completed (time : Nat) (ack : ControlMessage) (seq : Nat) (expiry : Time)
      (ports : List Port)
  | withdrawn (time : Nat) (pfx : Name) (seq : Nat)
deriving DecidableEq, Repr

/-- The admissions of one prefix, oldest first. -/
def admissions (log : List LocalObs) (pfx : Name) : List Admission :=
  log.filterMap fun o =>
    match o with
    | .admitted u => if u.pfx = pfx then some u else none
    | _ => none

/-- The latest admission of a prefix. -/
def lastAdmission (log : List LocalObs) (pfx : Name) : Option Admission :=
  (admissions log pfx).getLast?

structure LocalWorld (ω : Type) where
  clock : Clock
  ctl : LocalRouteController
  log : List LocalObs
  env : ω

/-- `FlowTableSyncRequestCallback` and `SyncCompleteCallback`; `none` is an
empty `std::function`. -/
structure LocalCallbacks (ω : Type) where
  request : Option (ControlMessage → LocalWorld ω → LocalWorld ω)
  complete : Option (Name → LocalWorld ω → LocalWorld ω)

namespace LocalRouteController

variable {ω : Type}

def fibSize (ctl : LocalRouteController) : Nat := ctl.seqMap.size

def getHighestSeenSeq (ctl : LocalRouteController) (pfx : Name) : Option Nat :=
  ctl.highestSeenSeq[pfx]?

/-! ## Admission of a Trace update -/

/-- The generation guard: `none` rejects the update, and otherwise the
watermark has been raised. -/
def passGuard (cfg : LocalConfig) (pfx : Name) (seq : Nat)
    (ctl : LocalRouteController) : Option LocalRouteController :=
  if cfg.generationGuardEnabled then
    match ctl.highestSeenSeq[pfx]? with
    | some high =>
      if seq ≤ high then none
      else some { ctl with highestSeenSeq := ctl.highestSeenSeq.insert pfx seq }
    | none => some { ctl with highestSeenSeq := ctl.highestSeenSeq.insert pfx seq }
  else some ctl

/-- Replace the old decision of the prefix and publish the new generation. -/
def replaceEntry (now : Nat) (u : Admission) (ctl : LocalRouteController) :
    LocalRouteController :=
  let fib := if ctl.seqMap.contains u.pfx then ctl.temporaryFib.erase u.pfx
    else ctl.temporaryFib
  { ctl with
    seqMap := ctl.seqMap.insert u.pfx u.seq
    routeExpiries := ctl.routeExpiries.insert u.pfx u.routeExpiry
    temporaryFib := (fib.insertUntil now u.pfx u.port u.tableDeadline).2
    counters.tempUpdates := ctl.counters.tempUpdates + 1 }

/-- Cancel the lifetime timer of the prefix and start the one of the new
generation if its lease is finite. -/
def restartLifetimeTimer (u : Admission) (w : LocalWorld ω) : LocalWorld ω :=
  let ctl := { w.ctl with
    events := cancel? w.ctl.lifetimeTimers[u.pfx]? w.ctl.events
    lifetimeTimers := w.ctl.lifetimeTimers.erase u.pfx }
  if 0 < u.lifetime then
    { w with
      clock := w.clock.next
      ctl := { ctl with
        events := ctl.events ++
          [w.clock.schedule u.lifetime.toNat (.expireEntryBySeq u.pfx u.seq)]
        lifetimeTimers := ctl.lifetimeTimers.insert u.pfx w.clock.uid } }
  else { w with ctl := ctl }

/-- Replace the pending request of the prefix and start its retry timer. -/
def replacePending (cfg : LocalConfig) (u : Admission) (w : LocalWorld ω) : LocalWorld ω :=
  if 0 < cfg.controllerRetryTimeout then
    let events := cancel? (w.ctl.pendingControllerRequests[u.pfx]?.map (·.timer))
      w.ctl.events
    { w with
      clock := w.clock.next
      ctl := { w.ctl with
        events := events ++ [w.clock.schedule cfg.controllerRetryTimeout.toNat
          (.onControllerRetryTimeout u.pfx u.seq)]
        pendingControllerRequests := w.ctl.pendingControllerRequests.insert u.pfx
          { seq := u.seq
            retriesLeft := cfg.controllerRetryLimit
            timer := w.clock.uid
            msg := u.packetIn } } }
  else w

/-- Call the request callback. -/
def dispatch (cbs : LocalCallbacks ω) (msg : ControlMessage) (w : LocalWorld ω) :
    LocalWorld ω :=
  match cbs.request with
  | none => w
  | some request => request msg { w with log := w.log ++ [.request w.clock.now msg] }

/-- Everything `applyTraceUpdate` does after the two generation checks and
before the dispatch. -/
def stage (cfg : LocalConfig) (cbs : LocalCallbacks ω) (u : Admission)
    (w : LocalWorld ω) : LocalWorld ω :=
  let w := { w with
    ctl := replaceEntry w.clock.now u w.ctl
    log := w.log ++ [.admitted u] }
  let w := restartLifetimeTimer u w
  if cbs.request.isSome then
    replacePending cfg u { w with
      ctl := { w.ctl with counters.controlPackets := w.ctl.counters.controlPackets + 1 } }
  else w

/-- The part of `applyTraceUpdate` that follows the two generation checks.
Pending state is published before the dispatch, so that a synchronous
completion finds and erases the whole transaction. -/
def publish (cfg : LocalConfig) (cbs : LocalCallbacks ω) (u : Admission)
    (w : LocalWorld ω) : LocalWorld ω :=
  dispatch cbs u.packetIn (stage cfg cbs u w)

/-- Count a rejected Trace update. -/
def rejectTrace (ctl : LocalRouteController) : LocalRouteController :=
  { ctl with
    counters.staleTraceUpdatesRejected := ctl.counters.staleTraceUpdatesRejected + 1 }

/-- `LocalRouteController::applyTraceUpdate`; `ttl` is in microseconds. -/
def applyTraceUpdate (cfg : LocalConfig) (cbs : LocalCallbacks ω) (pfx : Name)
    (nameHashes : Bytes) (prefixLen : Nat) (portNumber : Port) (seq : Nat) (ttl : Int)
    (w : LocalWorld ω) : Except String (Bool × LocalWorld ω) :=
  if ttl < 0 then
    .error "Routing-protocol lifetime must be nonnegative"
  else
    let suppliedLifetime := wrap64 (ttl * 1000)
    if 0 < suppliedLifetime ∧ 0 < cfg.entryLifetime ∧
        suppliedLifetime ≠ cfg.entryLifetime then
      .error "Configured route lifetime differs from the routing-protocol lifetime"
    else
      let lifetime := if 0 < suppliedLifetime then suppliedLifetime else cfg.entryLifetime
      let u : Admission :=
        { pfx, nameHashes, prefixLen, port := portNumber, seq, lifetime
          time := w.clock.now, origin := (admissions w.log pfx).length }
      match passGuard cfg pfx seq w.ctl with
      | none => .ok (false, { w with ctl := rejectTrace w.ctl })
      | some ctl =>
        if (match ctl.seqMap[pfx]? with | some s => decide (seq ≤ s) | none => false) then
          .ok (false, { w with ctl := rejectTrace ctl })
        else .ok (true, publish cfg cbs u { w with ctl := ctl })

/-! ## Completion -/

/-- Remove everything the controller holds for a prefix. -/
def retire (pfx : Name) (ctl : LocalRouteController) : LocalRouteController :=
  { ctl with
    temporaryFib := ctl.temporaryFib.erase pfx
    seqMap := ctl.seqMap.erase pfx
    routeExpiries := ctl.routeExpiries.erase pfx
    lifetimeTimers := ctl.lifetimeTimers.erase pfx
    pendingControllerRequests := ctl.pendingControllerRequests.erase pfx
    events := cancel? (ctl.pendingControllerRequests[pfx]?.map (·.timer))
      (cancel? ctl.lifetimeTimers[pfx]? ctl.events) }

/-- The ports stored for a prefix in the temporary FIB. -/
def storedPorts (ctl : LocalRouteController) (pfx : Name) : List Port :=
  match ctl.temporaryFib.entries[pfx]? with
  | none => []
  | some entry => entry.nextHops.keys

/-- `handleControlResponse` up to the completion callback. -/
def acceptResponse (cfg : LocalConfig) (message : ControlMessage) (w : LocalWorld ω) :
    Bool × LocalWorld ω :=
  if message.type ≠ .syncAck then (false, w)
  else
    match w.ctl.seqMap[message.pfx]? with
    | none =>
      let stale := cfg.generationGuardEnabled &&
        match w.ctl.highestSeenSeq[message.pfx]? with
        | some high => decide (message.seq ≤ high)
        | none => false
      if stale then
        (false, { w with ctl := { w.ctl with
          counters.staleSyncAcksRejected := w.ctl.counters.staleSyncAcksRejected + 1 } })
      else
        (false, { w with ctl := { w.ctl with
          counters.noPendingSyncAcksRejected :=
            w.ctl.counters.noPendingSyncAcksRejected + 1 } })
    | some seq =>
      if (cfg.generationGuardEnabled && decide (seq ≠ message.seq)) ||
          (!cfg.generationGuardEnabled && decide (message.seq ≠ 0) &&
            decide (seq ≠ message.seq)) then
        (false, { w with ctl := { w.ctl with
          counters.staleSyncAcksRejected := w.ctl.counters.staleSyncAcksRejected + 1 } })
      else
        -- `at` cannot throw: both maps have the same keys
        let routeExpiry := w.ctl.routeExpiries[message.pfx]?.getD 0
        if 0 < routeExpiry ∧ routeExpiry ≤ w.clock.now then
          (false, { w with ctl := { w.ctl with
            counters.expiredSyncAcksRejected :=
              w.ctl.counters.expiredSyncAcksRejected + 1 } })
        else if message.routeExpiry ≠ routeExpiry then
          (false, { w with ctl := { w.ctl with
            counters.staleSyncAcksRejected :=
              w.ctl.counters.staleSyncAcksRejected + 1 } })
        else
          (true, { w with
            log := w.log ++ [.completed w.clock.now message seq routeExpiry
              (storedPorts w.ctl message.pfx)]
            ctl := { retire message.pfx w.ctl with
              counters.syncCompletions := w.ctl.counters.syncCompletions + 1 } })

/-- `LocalRouteController::handleControlResponse`. -/
def handleControlResponse (cfg : LocalConfig) (cbs : LocalCallbacks ω)
    (message : ControlMessage) (w : LocalWorld ω) : Bool × LocalWorld ω :=
  match acceptResponse cfg message w, cbs.complete with
  | (true, w), some complete => (true, complete message.pfx w)
  | result, _ => result

/-! ## Timers -/

/-- `LocalRouteController::expireEntryBySeq`. -/
def expireEntryBySeq (pfx : Name) (seq : Nat) (ctl : LocalRouteController) :
    LocalRouteController :=
  let ctl :=
    if ctl.seqMap[pfx]? = some seq then
      let ctl := { ctl with
        temporaryFib := ctl.temporaryFib.erase pfx
        seqMap := ctl.seqMap.erase pfx
        routeExpiries := ctl.routeExpiries.erase pfx }
      match ctl.pendingControllerRequests[pfx]? with
      | some pending =>
        if pending.seq = seq then
          { ctl with
            events := cancel pending.timer ctl.events
            pendingControllerRequests := ctl.pendingControllerRequests.erase pfx }
        else ctl
      | none => ctl
    else ctl
  { ctl with lifetimeTimers := ctl.lifetimeTimers.erase pfx }

/-- Schedule the next retry if the transaction survived the dispatch. -/
def rescheduleRetry (cfg : LocalConfig) (pfx : Name) (seq : Nat) (w : LocalWorld ω) :
    LocalWorld ω :=
  match w.ctl.pendingControllerRequests[pfx]? with
  | some pending =>
    if pending.seq = seq then
      { w with
        clock := w.clock.next
        ctl := { w.ctl with
          events := w.ctl.events ++ [w.clock.schedule cfg.controllerRetryTimeout.toNat
            (.onControllerRetryTimeout pfx seq)]
          pendingControllerRequests := w.ctl.pendingControllerRequests.insert pfx
            { pending with timer := w.clock.uid } } }
    else w
  | none => w

/-- `LocalRouteController::onControllerRetryTimeout`. -/
def onControllerRetryTimeout (cfg : LocalConfig) (cbs : LocalCallbacks ω) (pfx : Name)
    (seq : Nat) (w : LocalWorld ω) : LocalWorld ω :=
  match w.ctl.pendingControllerRequests[pfx]? with
  | none => w
  | some pending =>
    if pending.seq ≠ seq then w
    else if w.ctl.seqMap[pfx]? ≠ some seq then
      { w with ctl := { w.ctl with
        pendingControllerRequests := w.ctl.pendingControllerRequests.erase pfx } }
    else if 0 < pending.retriesLeft then
      let w := { w with ctl := { w.ctl with
        pendingControllerRequests := w.ctl.pendingControllerRequests.insert pfx
          { pending with retriesLeft := pending.retriesLeft - 1 }
        counters.controllerRetries := w.ctl.counters.controllerRetries + 1
        counters.controlPackets := w.ctl.counters.controlPackets + 1 } }
      rescheduleRetry cfg pfx seq (dispatch cbs pending.msg w)
    else
      -- the budget is exhausted: withdraw the temporary entry and its metadata
      { w with
        log := w.log ++ [.withdrawn w.clock.now pfx seq]
        ctl := { w.ctl with
          counters.temporaryRouteWithdrawals := w.ctl.counters.temporaryRouteWithdrawals + 1
          temporaryFib := w.ctl.temporaryFib.erase pfx
          seqMap := w.ctl.seqMap.erase pfx
          routeExpiries := w.ctl.routeExpiries.erase pfx
          events := cancel? w.ctl.lifetimeTimers[pfx]? w.ctl.events
          lifetimeTimers := w.ctl.lifetimeTimers.erase pfx
          pendingControllerRequests := w.ctl.pendingControllerRequests.erase pfx } }

/-- Take an event off the queue and set the clock to its time. -/
def take (e : Scheduled LocalEvent) (w : LocalWorld ω) : LocalWorld ω :=
  { w with
    clock := { w.clock with now := e.ts }
    ctl := { w.ctl with events := cancel e.uid w.ctl.events } }

/-- Run one of the controller's events. -/
def fire (cfg : LocalConfig) (cbs : LocalCallbacks ω) (e : Scheduled LocalEvent)
    (w : LocalWorld ω) : LocalWorld ω :=
  let w := take e w
  match e.event with
  | .expireEntryBySeq pfx seq => { w with ctl := expireEntryBySeq pfx seq w.ctl }
  | .onControllerRetryTimeout pfx seq => onControllerRetryTimeout cfg cbs pfx seq w

/-! ## Lookups in the temporary FIB -/

/-- `getTemporaryFib().findExact`. -/
def findExact (pfx : Name) (w : LocalWorld ω) : Option ForwardingEntry × LocalWorld ω :=
  let r := w.ctl.temporaryFib.findExact w.clock.now pfx
  (r.1, { w with ctl := { w.ctl with temporaryFib := r.2 } })

/-- `getTemporaryFib().findLongestPrefix`. -/
def findLongestPrefix (name : Name) (w : LocalWorld ω) :
    Option ForwardingEntry × LocalWorld ω :=
  let r := w.ctl.temporaryFib.findLongestPrefix w.clock.now name
  (r.1, { w with ctl := { w.ctl with temporaryFib := r.2 } })

end LocalRouteController

end Statim
