import Statim.State.TemporaryForwardingTable

/-!
# Control messages

The one message format of the control loop: a PacketIn from the local
controller, the FlowMod the flow-table controller derives from it, and the
SyncAck that reports a completed installation.
-/

namespace Statim

inductive ControlMessageType
  | packetIn
  | flowMod
  | syncAck
deriving DecidableEq, Repr

/-- `ControlMessage`.  Zero in `routeExpiry` selects a lease-free update. -/
structure ControlMessage where
  type : ControlMessageType
  nameHashes : Bytes
  prefixLen : Nat
  outputPort : Port
  pfx : Name
  seq : Nat
  routeExpiry : Time
  /-- Ghost: which admission of `pfx` the message descends from.  It is copied
  along with the message and read by no function of the model. -/
  origin : Nat
deriving DecidableEq, Repr

namespace ControlMessage

def isExpiredAt (m : ControlMessage) (now : Time) : Bool :=
  decide (m.routeExpiry ≠ 0) && decide (m.routeExpiry ≤ now)

theorem isExpiredAt_eq_false_iff {m : ControlMessage} {now : Time} :
    m.isExpiredAt now = false ↔ m.routeExpiry = 0 ∨ now < m.routeExpiry := by
  by_cases hzero : m.routeExpiry = 0
  · simp [isExpiredAt, hzero]
  · simp [isExpiredAt, hzero]

/-- The payload of a message: everything that describes the route update. -/
structure Payload where
  pfx : Name
  seq : Nat
  prefixLen : Nat
  outputPort : Port
  nameHashes : Bytes
  routeExpiry : Time
deriving DecidableEq, Repr

/-- A message up to its type field. -/
def payload (m : ControlMessage) : Payload where
  pfx := m.pfx
  seq := m.seq
  prefixLen := m.prefixLen
  outputPort := m.outputPort
  nameHashes := m.nameHashes
  routeExpiry := m.routeExpiry

/-- `FlowTableController::sameUpdate`. -/
def sameUpdate (lhs rhs : ControlMessage) : Bool :=
  decide (lhs.pfx = rhs.pfx) && decide (lhs.seq = rhs.seq) &&
    decide (lhs.prefixLen = rhs.prefixLen) &&
    decide (lhs.outputPort = rhs.outputPort) &&
    decide (lhs.nameHashes = rhs.nameHashes) &&
    decide (lhs.routeExpiry = rhs.routeExpiry)

theorem sameUpdate_eq_true_iff {lhs rhs : ControlMessage} :
    sameUpdate lhs rhs = true ↔ lhs.payload = rhs.payload := by
  simp [sameUpdate, payload, and_assoc]

theorem payload_pfx {a b : ControlMessage} (h : a.payload = b.payload) : a.pfx = b.pfx :=
  congrArg Payload.pfx h

theorem payload_seq {a b : ControlMessage} (h : a.payload = b.payload) : a.seq = b.seq :=
  congrArg Payload.seq h

theorem payload_routeExpiry {a b : ControlMessage} (h : a.payload = b.payload) :
    a.routeExpiry = b.routeExpiry :=
  congrArg Payload.routeExpiry h

@[simp] theorem payload_withType (m : ControlMessage) (t : ControlMessageType) :
    { m with type := t }.payload = m.payload := rfl

end ControlMessage

end Statim
