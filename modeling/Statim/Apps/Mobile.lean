import Mathlib.Data.Int.Notation
import Statim.Support.Schedule
import Statim.TraceName

/-!
# The mobile producer

`StatimMobile` sends a Trace Interest some time after each association, and then again
at every refresh interval.  A Trace that is not answered within its lifetime is sent
again, three times at most.  The mobile answers every Interest that reaches it, and
measures how long after a handover the first one does.
-/

namespace Statim

open Support

/-- What the events of a mobile run. -/
inductive MobileEvent
  | sendTrace
  | traceTimeout
deriving DecidableEq, Repr

/-- The attributes of a mobile, with times in nanoseconds. -/
structure MobileConfig where
  rvPrefix : Name
  dataPrefix : Name
  traceLifetime : ℕ
  refreshInterval : ℕ
  traceDelay : ℕ
  /-- `Seconds(t.GetSeconds())`, computed in floating point. -/
  throughSeconds : ℕ → ℕ

/-- The members of `StatimMobile`.  The events that `OnAssociation` schedules have no
handle. -/
structure Mobile where
  active : Bool
  seq : UInt64
  traceRefreshEvent : Option ℕ
  traceTimeoutEvent : Option ℕ
  events : List (Scheduled MobileEvent)
  traceRetryCnt : ℕ
  rvInterests : ℕ
  rvData : ℕ
  interestForData : ℕ
  data : ℕ
  current : UInt64
  lastTraceSendTime : ℕ
  waitingForFirstInterest : Bool
  useExternalAnchor : Bool
  hoAnchor : ℕ
  handoverDelays : List ℤ

/-- What a mobile does and learns: its associations, the Traces that it sends, the Data that
it takes for an answer, the Traces that time out, and the Data that it sends. -/
inductive MobileObs
  | associated (time : ℕ)
  | trace (time : ℕ) (seq : UInt64) (name : Name) (lifetime : ℕ)
  | answered (time : ℕ) (seq : UInt64)
  | retried (time : ℕ) (seq : UInt64)
  | gaveUp (time : ℕ) (seq : UInt64)
  | sentData (time : ℕ) (name : Name)
deriving DecidableEq, Repr

/-- A mobile with the simulator's clock and what it has done. -/
structure MobileWorld where
  clock : Clock
  app : Mobile
  log : List MobileObs

namespace StatimMobile

/-- The time from a Trace to the next one. -/
def refreshDelay (cfg : MobileConfig) : ℕ := cfg.throughSeconds cfg.refreshInterval

/-- The time from a Trace to its timeout. -/
def timeoutDelay (cfg : MobileConfig) : ℕ := cfg.throughSeconds cfg.traceLifetime

/-- `StatimMobile::OnAssociation`. -/
def onAssociation (cfg : MobileConfig) (w : MobileWorld) : MobileWorld :=
  { w with
    clock := w.clock.next
    log := w.log ++ [.associated w.clock.now]
    app := { w.app with
      waitingForFirstInterest := true
      events := w.app.events ++ [w.clock.schedule cfg.traceDelay .sendTrace] } }

/-- `StatimMobile::MarkHandover`. -/
def markHandover (anchor : ℕ) (w : MobileWorld) : MobileWorld :=
  { w with app := { w.app with
      waitingForFirstInterest := true
      useExternalAnchor := true
      hoAnchor := anchor } }

/-- The Interest of `StatimMobile::SendTrace`. -/
def transmitTrace (cfg : MobileConfig) (w : MobileWorld) : MobileWorld :=
  { w with
    log := w.log ++ [.trace w.clock.now w.app.seq
      (Name.sendTraceName cfg.rvPrefix cfg.dataPrefix w.app.seq) (cfg.traceLifetime / 10 ^ 6)]
    app := { w.app with
      seq := w.app.seq + 1
      rvInterests := w.app.rvInterests + 1
      lastTraceSendTime := w.clock.now } }

/-- The next refresh takes the place of the one that is scheduled.  Cancelling an event that
has run changes nothing, so that the test before it needs no case of its own. -/
def renewRefresh (cfg : MobileConfig) (w : MobileWorld) : MobileWorld :=
  let cancelled := { w with app := { w.app with
    events := cancel? w.app.traceRefreshEvent w.app.events } }
  if cfg.refreshInterval ≠ 0 then
    { cancelled with
      clock := w.clock.next
      app := { cancelled.app with
        traceRefreshEvent := some w.clock.uid
        events := cancelled.app.events ++ [w.clock.schedule (refreshDelay cfg) .sendTrace] } }
  else cancelled

/-- The next timeout takes the place of the one that is scheduled. -/
def renewTimeout (cfg : MobileConfig) (w : MobileWorld) : MobileWorld :=
  { w with
    clock := w.clock.next
    app := { w.app with
      traceTimeoutEvent := some w.clock.uid
      events := cancel? w.app.traceTimeoutEvent w.app.events ++
        [w.clock.schedule (timeoutDelay cfg) .traceTimeout] } }

/-- `StatimMobile::SendTrace`. -/
def sendTrace (cfg : MobileConfig) (w : MobileWorld) : MobileWorld :=
  renewTimeout cfg (renewRefresh cfg (transmitTrace cfg w))

/-- `StatimMobile::OnData`; `none` is the exception of a name that does not end in a sequence
number. -/
def onData (name : Name) (w : MobileWorld) : Option MobileWorld :=
  if w.app.active = false then some w
  else
    let received := { w with app := { w.app with rvData := w.app.rvData + 1 } }
    match name.getLast?.bind Component.toSequenceNumber with
    | none => none
    | some number =>
        let seq := UInt64.ofNat number
        if seq ≠ w.app.seq - 1 then some received
        else some { received with
          log := w.log ++ [.answered w.clock.now seq]
          app := { received.app with
            events := cancel? w.app.traceTimeoutEvent w.app.events
            traceRetryCnt := 0 } }

/-- `StatimMobile::OnTraceTimeout`. -/
def onTraceTimeout (cfg : MobileConfig) (w : MobileWorld) : MobileWorld :=
  let cancelled := { w with app := { w.app with
    events := cancel? w.app.traceRefreshEvent w.app.events } }
  if 3 ≤ w.app.traceRetryCnt then
    { cancelled with
      log := w.log ++ [.gaveUp w.clock.now (w.app.seq - 1)]
      app := { cancelled.app with traceRetryCnt := 0 } }
  else
    let noted := { cancelled with log := w.log ++ [.retried w.clock.now (w.app.seq - 1)] }
    let sent := if 0 < w.app.seq then sendTrace cfg noted else noted
    { sent with app := { sent.app with traceRetryCnt := sent.app.traceRetryCnt + 1 } }

/-- `StatimMobile::OnInterest`, without the contents of the Data. -/
def onInterest (name : Name) (w : MobileWorld) : MobileWorld :=
  if w.app.active = false then w
  else
    let anchor := if w.app.useExternalAnchor then w.app.hoAnchor else w.app.lastTraceSendTime
    { w with
      log := w.log ++ [.sentData w.clock.now (name ++ [.fromSequenceNumber w.app.current])]
      app := { w.app with
        handoverDelays :=
          if w.app.waitingForFirstInterest then
            w.app.handoverDelays ++ [(w.clock.now : ℤ) - anchor]
          else w.app.handoverDelays
        waitingForFirstInterest := false
        interestForData := w.app.interestForData + 1
        data := w.app.data + 1 } }

/-- An event runs. -/
def run (cfg : MobileConfig) : MobileEvent → MobileWorld → MobileWorld
  | .sendTrace, w => sendTrace cfg w
  | .traceTimeout, w => onTraceTimeout cfg w

/-- The simulator takes an event at its time. -/
def takeEvent (e : Scheduled MobileEvent) (w : MobileWorld) : MobileWorld :=
  { w with
    clock := { w.clock with now := e.ts }
    app := { w.app with events := cancel e.uid w.app.events } }

/-- A mobile as it is constructed. -/
def initial (current : UInt64) (c : Clock) : MobileWorld where
  clock := c
  log := []
  app :=
    { active := false
      seq := 1
      traceRefreshEvent := none
      traceTimeoutEvent := none
      events := []
      traceRetryCnt := 0
      rvInterests := 0
      rvData := 0
      interestForData := 0
      data := 0
      current := current
      lastTraceSendTime := 0
      waitingForFirstInterest := false
      useExternalAnchor := false
      hoAnchor := 0
      handoverDelays := [] }

/-! ## Runs -/

/-- What happens to a mobile. -/
inductive MobileAction
  | start
  | stop
  | associate
  | markHandover (anchor : ℕ)
  | attach (current : UInt64)
  | interest (name : Name)
  | data (name : Name)
  | fire (e : Scheduled MobileEvent)
  | elapse (time uid : ℕ)

/-- One step, or `none` where it cannot be taken. -/
def step (cfg : MobileConfig) (w : MobileWorld) : MobileAction → Option MobileWorld
  | .start => some { w with app := { w.app with active := true } }
  | .stop => some { w with app := { w.app with active := false } }
  | .associate => some (onAssociation cfg w)
  | .markHandover anchor => some (markHandover anchor w)
  | .attach current => some { w with app := { w.app with current := current } }
  | .interest name => some (onInterest name w)
  | .data name => onData name w
  | .fire e => if IsNext e w.app.events then some (run cfg e.event (takeEvent e w)) else none
  | .elapse time uid =>
      if w.clock.now ≤ time ∧ w.clock.uid ≤ uid ∧ ∀ e ∈ w.app.events, time ≤ e.ts then
        some { w with clock := ⟨time, uid⟩ }
      else none

/-- The states of a mobile, whatever happens to it in whatever order. -/
def Reachable (cfg : MobileConfig) (w : MobileWorld) : Prop :=
  ∃ current c actions, List.foldlM (step cfg) (initial current c) actions = some w

end StatimMobile

end Statim
