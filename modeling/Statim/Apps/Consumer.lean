import Mathlib.Data.List.Dedup
import Statim.Apps.RttMeanDeviation
import Statim.Support.Schedule
import Statim.Support.TimedSet
import Statim.TraceName

/-!
# The consumer

`StatimConsumer` requests sequence numbers at a configured rate.  It times the
Interests that it sends; a periodic check moves those whose timeout has passed to
the set of sequence numbers to send again, and these go out before new ones.  What
it counts on the way becomes the loss report of a run.

The two classes `Consumer` and `StatimConsumer` share one object.  Functions of the
base class are in the namespace `Consumer`, the overriding ones and those that call
them in `StatimConsumer`.
-/

namespace Statim

open Support

/-- What `m_sendEvent` and `m_retxEvent` run. -/
inductive ConsumerEvent
  | sendPacket
  | checkRetxTimeout
deriving DecidableEq, Repr

/-- The attributes of a consumer. -/
structure ConsumerConfig where
  interestName : Name
  interestLifeTime : ℕ
  retxTimer : ℕ
  seqMax : UInt32
  /-- `m_random`: whether the time between Interests is drawn. -/
  randomized : Bool
  /-- `Seconds(1.0 / m_frequency)`. -/
  period : ℕ
  lossWindowStart : ℕ
  lossWindowLen : ℕ
  rtt : RttArithmetic
  /-- The tenth of a second in which a time lies, computed in floating point. -/
  sendBin : ℕ → ℤ

/-- The members of `Consumer` and of `StatimConsumer`. -/
structure Consumer where
  active : Bool
  seq : UInt32
  sendEvent : Option ℕ
  retxEvent : Option ℕ
  events : List (Scheduled ConsumerEvent)
  rtt : RttMeanDeviation
  retxSeqs : Std.TreeSet UInt32
  seqTimeouts : TimedSet UInt32
  seqLastDelay : TimedSet UInt32
  seqFullDelay : TimedSet UInt32
  seqRetxCounts : Std.TreeMap UInt32 UInt32
  firstTime : Bool
  interestSent : ℕ
  dataReceived : ℕ
  timeoutCount : ℕ
  seqSendTime : Std.TreeMap UInt32 ℕ
  timeoutsBySendBin : Std.TreeMap ℤ UInt32
  seqFirstSent : Std.TreeMap UInt32 ℕ
  seqSatisfied : Std.TreeSet UInt32

/-- What a consumer shows: the Interests it transmits, the timeouts it logs, and the
two trace sources of delays. -/
inductive ConsumerObs
  | sentInterest (time : ℕ) (seq : UInt32) (name : Name) (lifetime : ℕ)
  | timeout (seq : UInt32) (sendTime time : ℕ)
  | lastRetransmittedInterestDataDelay (time : ℕ) (seq : UInt32) (delay hopCount : ℕ)
  | firstInterestDataDelay (time : ℕ) (seq : UInt32) (delay : ℕ) (retxCount : UInt32)
    (hopCount : ℕ)
deriving DecidableEq, Repr

/-- A consumer with the simulator's clock and what it has shown. -/
structure ConsumerWorld where
  clock : Clock
  app : Consumer
  log : List ConsumerObs

namespace Consumer

/-- `std::numeric_limits<uint32_t>::max()`, which stands for no sequence number. -/
def noSeq : UInt32 := 0xffffffff

/-- `EventId::IsRunning`. -/
def isRunning (handle : Option ℕ) (events : List (Scheduled ConsumerEvent)) : Bool :=
  match handle with
  | none => false
  | some uid => events.any fun e => e.uid == uid

/-- The name of the Interest for a sequence number. -/
def nameWithSequence (cfg : ConsumerConfig) (seq : UInt32) : Name :=
  cfg.interestName ++ [.fromSequenceNumber seq.toUInt64]

/-- `Consumer::WillSendOutInterest`. -/
def willSendOutInterest (sequenceNumber : UInt32) (w : ConsumerWorld) : ConsumerWorld :=
  { w with app := { w.app with
      seqTimeouts := w.app.seqTimeouts.insert sequenceNumber w.clock.now
      seqFullDelay := w.app.seqFullDelay.insert sequenceNumber w.clock.now
      seqLastDelay :=
        (w.app.seqLastDelay.erase sequenceNumber).insert sequenceNumber w.clock.now
      seqRetxCounts := w.app.seqRetxCounts.insert sequenceNumber
        (w.app.seqRetxCounts[sequenceNumber]?.getD 0 + 1)
      rtt := w.app.rtt.sentSeq sequenceNumber 1 w.clock.now } }

/-- The two delays that `Consumer::OnData` reports. -/
def dataDelays (seq : UInt32) (hopCount : ℕ) (w : ConsumerWorld) : List ConsumerObs :=
  ((w.app.seqLastDelay.time? seq).map fun time =>
    .lastRetransmittedInterestDataDelay w.clock.now seq (w.clock.now - time) hopCount).toList ++
  ((w.app.seqFullDelay.time? seq).map fun time =>
    .firstInterestDataDelay w.clock.now seq (w.clock.now - time)
      (w.app.seqRetxCounts[seq]?.getD 0) hopCount).toList

/-- `Consumer::OnData`; `none` is the exception of a name that does not end in a
sequence number. -/
def onData (cfg : ConsumerConfig) (name : Name) (hopCount : Option ℕ) (w : ConsumerWorld) :
    Option ConsumerWorld :=
  if w.app.active = false then some w
  else
    match name.getLast?.bind Component.toSequenceNumber with
    | none => none
    | some number =>
        let seq := UInt32.ofNat number
        some { w with
          log := w.log ++ dataDelays seq (hopCount.getD 0) w
          app := { w.app with
            seqRetxCounts := w.app.seqRetxCounts.erase seq
            seqFullDelay := w.app.seqFullDelay.erase seq
            seqLastDelay := w.app.seqLastDelay.erase seq
            seqTimeouts := w.app.seqTimeouts.erase seq
            retxSeqs := w.app.retxSeqs.erase seq
            rtt := (w.app.rtt.ackSeq cfg.rtt seq w.clock.now).reset cfg.rtt } }

/-- `Consumer::StopApplication`. -/
def stopApplication (w : ConsumerWorld) : ConsumerWorld :=
  { w with app := { w.app with
      events := cancel? w.app.sendEvent w.app.events
      active := false } }

end Consumer

namespace StatimConsumer

open Consumer

/-- Schedule `SendPacket` as the new `m_sendEvent`. -/
def scheduleSend (delay : ℕ) (w : ConsumerWorld) : ConsumerWorld :=
  { w with
    clock := w.clock.next
    app := { w.app with
      sendEvent := some w.clock.uid
      events := w.app.events ++ [w.clock.schedule delay .sendPacket] } }

/-- `StatimConsumer::ScheduleNextPacket`; `draw` is the value of `m_random`. -/
def scheduleNextPacket (cfg : ConsumerConfig) (draw : ℕ) (w : ConsumerWorld) : ConsumerWorld :=
  if w.app.firstTime then
    let scheduled := scheduleSend 0 w
    { scheduled with app := { scheduled.app with firstTime := false } }
  else if !isRunning w.app.sendEvent w.app.events then
    scheduleSend (if cfg.randomized then draw else cfg.period) w
  else w

/-- `StatimConsumer::WillSendOutInterest`. -/
def willSendOutInterest (sequenceNumber : UInt32) (w : ConsumerWorld) : ConsumerWorld :=
  Consumer.willSendOutInterest sequenceNumber { w with app := { w.app with
    interestSent := w.app.interestSent + 1
    seqSendTime := w.app.seqSendTime.insert sequenceNumber w.clock.now
    seqFirstSent :=
      if w.app.seqFirstSent.contains sequenceNumber then w.app.seqFirstSent
      else w.app.seqFirstSent.insert sequenceNumber w.clock.now } }

/-- `Consumer::SendPacket` for the chosen sequence number, up to its next packet. -/
def sendInterest (cfg : ConsumerConfig) (seq : UInt32) (w : ConsumerWorld) : ConsumerWorld :=
  let noted := willSendOutInterest seq w
  { noted with log := noted.log ++
      [.sentInterest noted.clock.now seq (nameWithSequence cfg seq) cfg.interestLifeTime] }

/-- Take the smallest sequence number to send again, or none. -/
def takeRetx (retxSeqs : Std.TreeSet UInt32) : UInt32 × Std.TreeSet UInt32 :=
  match retxSeqs.toList.head? with
  | none => (noSeq, retxSeqs)
  | some seq => (seq, retxSeqs.erase seq)

/-- `Consumer::SendPacket`. -/
def sendPacket (cfg : ConsumerConfig) (draw : ℕ) (w : ConsumerWorld) : ConsumerWorld :=
  if w.app.active = false then w
  else
    let taken := takeRetx w.app.retxSeqs
    let popped := { w with app := { w.app with retxSeqs := taken.2 } }
    if taken.1 = noSeq then
      if cfg.seqMax ≠ noSeq ∧ cfg.seqMax ≤ w.app.seq then
        -- everything has been requested
        popped
      else
        scheduleNextPacket cfg draw (sendInterest cfg w.app.seq
          { popped with app := { popped.app with seq := w.app.seq + 1 } })
    else scheduleNextPacket cfg draw (sendInterest cfg taken.1 popped)

/-- Count a timeout in the tenth of a second in which its Interest was sent. -/
def countInBin (cfg : ConsumerConfig) (sendTime : ℕ) (bins : Std.TreeMap ℤ UInt32) :
    Std.TreeMap ℤ UInt32 :=
  bins.insert (cfg.sendBin sendTime) (bins[cfg.sendBin sendTime]?.getD 0 + 1)

/-- What `StatimConsumer::OnTimeout` counts; it logs the timeout of an Interest whose send
time is known. -/
def countTimeout (cfg : ConsumerConfig) (sequenceNumber : UInt32) (w : ConsumerWorld) :
    ConsumerWorld :=
  let sendTime := w.app.seqSendTime[sequenceNumber]?
  { w with
    log := w.log ++ (sendTime.map fun t => .timeout sequenceNumber t w.clock.now).toList
    app := { w.app with
      timeoutCount := w.app.timeoutCount + 1
      timeoutsBySendBin := (sendTime.map fun t =>
        countInBin cfg t w.app.timeoutsBySendBin).getD w.app.timeoutsBySendBin } }

/-- `Consumer::OnTimeout`, up to its next packet. -/
def requeue (sequenceNumber : UInt32) (w : ConsumerWorld) : ConsumerWorld :=
  { w with app := { w.app with
      rtt := w.app.rtt.sentSeq sequenceNumber 1 w.clock.now
      retxSeqs := w.app.retxSeqs.insert sequenceNumber } }

/-- `StatimConsumer::OnTimeout`. -/
def onTimeout (cfg : ConsumerConfig) (draw : ℕ) (sequenceNumber : UInt32) (w : ConsumerWorld) :
    ConsumerWorld :=
  scheduleNextPacket cfg draw (requeue sequenceNumber (countTimeout cfg sequenceNumber w))

/-- Take a sequence number out of `m_seqTimeouts`. -/
def eraseTimeout (sequenceNumber : UInt32) (w : ConsumerWorld) : ConsumerWorld :=
  { w with app := { w.app with seqTimeouts := w.app.seqTimeouts.erase sequenceNumber } }

/-- The loop of `Consumer::CheckRetxTimeout`, with fuel for its turns. -/
def expireTimeouts (cfg : ConsumerConfig) (draw : ℕ) (rto : ℤ) :
    ℕ → ConsumerWorld → ConsumerWorld
  | 0, w => w
  | fuel + 1, w =>
      match w.app.seqTimeouts.entries with
      | [] => w
      | entry :: _ =>
          if (entry.2 : ℤ) + rto ≤ w.clock.now then
            expireTimeouts cfg draw rto fuel
              (onTimeout cfg draw entry.1 (eraseTimeout entry.1 w))
          else w

/-- Schedule the next `CheckRetxTimeout` as `m_retxEvent`. -/
def scheduleCheck (cfg : ConsumerConfig) (w : ConsumerWorld) : ConsumerWorld :=
  { w with
    clock := w.clock.next
    app := { w.app with
      retxEvent := some w.clock.uid
      events := w.app.events ++ [w.clock.schedule cfg.retxTimer .checkRetxTimeout] } }

/-- `Consumer::CheckRetxTimeout`: each turn of the loop takes an entry off. -/
def checkRetxTimeout (cfg : ConsumerConfig) (draw : ℕ) (w : ConsumerWorld) : ConsumerWorld :=
  scheduleCheck cfg (expireTimeouts cfg draw (w.app.rtt.retransmitTimeout cfg.rtt)
    w.app.seqTimeouts.entries.length w)

/-- `StatimConsumer::OnData`.  The Data handed on is built anew from the octets, so that
it carries no hop count. -/
def onData (cfg : ConsumerConfig) (name : Name) (w : ConsumerWorld) : Option ConsumerWorld :=
  let received := { w with app := { w.app with dataReceived := w.app.dataReceived + 1 } }
  if 2 ≤ name.length then
    match name.dropLast.getLast?.bind Component.toSequenceNumber with
    | none => none
    | some number =>
        Consumer.onData cfg name.dropLast none { received with app := { received.app with
          seqSatisfied := received.app.seqSatisfied.insert (UInt32.ofNat number) } }
  else Consumer.onData cfg name.dropLast none received

/-- `StatimConsumer::StartApplication`. -/
def startApplication (cfg : ConsumerConfig) (draw : ℕ) (w : ConsumerWorld) : ConsumerWorld :=
  scheduleNextPacket cfg draw { w with app := { w.app with active := true } }

/-- An event runs. -/
def run (cfg : ConsumerConfig) (draw : ℕ) : ConsumerEvent → ConsumerWorld → ConsumerWorld
  | .sendPacket, w => sendPacket cfg draw w
  | .checkRetxTimeout, w => checkRetxTimeout cfg draw w

/-- The simulator runs an event at its time. -/
def fire (cfg : ConsumerConfig) (draw : ℕ) (e : Scheduled ConsumerEvent) (w : ConsumerWorld) :
    ConsumerWorld :=
  run cfg draw e.event { w with
    clock := { w.clock with now := e.ts }
    app := { w.app with events := cancel e.uid w.app.events } }

/-! ## The loss report -/

/-- The sequence numbers first sent within `window` that no Data has satisfied, which
`StatimConsumer::StopApplication` counts. -/
def neverSatisfied (window : ℕ → Bool) (app : Consumer) : ℕ :=
  app.seqFirstSent.toList.countP fun kv =>
    window kv.2 && !app.seqSatisfied.contains kv.1

/-- The sequence numbers first sent within `window`. -/
def firstSentIn (window : ℕ → Bool) (app : Consumer) : ℕ :=
  app.seqFirstSent.toList.countP fun kv => window kv.2

/-- `RUN_LOSS`: the number of sequence numbers sent, and how many were never satisfied. -/
def runLoss (app : Consumer) : ℕ × ℕ :=
  (app.seqFirstSent.size, neverSatisfied (fun _ => true) app)

/-- The loss window. -/
def inLossWindow (cfg : ConsumerConfig) (time : ℕ) : Bool :=
  decide (cfg.lossWindowStart ≤ time ∧ time < cfg.lossWindowStart + cfg.lossWindowLen)

/-- `WINDOW_LOSS`, which is reported unless the window starts at 0. -/
def windowLoss (cfg : ConsumerConfig) (app : Consumer) : Option (ℕ × ℕ) :=
  if 0 < cfg.lossWindowStart then
    some (firstSentIn (inLossWindow cfg) app, neverSatisfied (inLossWindow cfg) app)
  else none

/-! ## Construction -/

/-- A consumer as it is constructed, with the first check scheduled by
`Consumer::SetRetxTimer`. -/
def initial (cfg : ConsumerConfig) (startSeq : UInt32) (c : Clock) : ConsumerWorld :=
  scheduleCheck cfg
    { clock := c
      log := []
      app :=
        { active := false
          seq := startSeq
          sendEvent := none
          retxEvent := none
          events := []
          rtt := .initial cfg.rtt
          retxSeqs := ∅
          seqTimeouts := .empty
          seqLastDelay := .empty
          seqFullDelay := .empty
          seqRetxCounts := ∅
          firstTime := true
          interestSent := 0
          dataReceived := 0
          timeoutCount := 0
          seqSendTime := ∅
          timeoutsBySendBin := ∅
          seqFirstSent := ∅
          seqSatisfied := ∅ } }

end StatimConsumer

end Statim
