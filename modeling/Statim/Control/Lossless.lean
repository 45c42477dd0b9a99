import Statim.Control.FlowTableController

/-!
# The loss-free exchange

Without losses and without the generation guard, only the FlowMod of an exchange is delayed.
A submitted update schedules its FlowMod, and the FlowMod is applied and acknowledged in one
event.
-/

namespace Statim

open Support

namespace FlowTableController

variable {σ : Type} {cfg : FlowTableConfig} {cbs : FlowTableCallbacks σ} {tc : Nat}
  {m : ControlMessage} {w : FlowTableWorld σ}

/-- Nothing is lost, and of the six draws of an exchange only the delay of the FlowMod is
not zero. -/
structure Lossless (tc : Nat) (cfg : FlowTableConfig) : Prop where
  guard : cfg.generationGuardEnabled = false
  drop : ∀ p n, cfg.drop p n = false
  delay : ∀ p n, cfg.delay p n = if n % 6 = 2 then tc else 0

theorem isExpiredAt_of_zero (hexpiry : m.routeExpiry = 0) (now : Time) :
    m.isExpiredAt now = false :=
  ControlMessage.isExpiredAt_eq_false_iff.mpr (Or.inl hexpiry)

/-! ## Submission -/

/-- The FlowMod of an update is scheduled. -/
structure Submits (tc : Nat) (m : ControlMessage) (w w' : FlowTableWorld σ) : Prop where
  clock : w'.clock = w.clock.next
  env : w'.env = w.env
  events : w'.ctl.events = w.ctl.events ++ [w.clock.schedule tc (.attemptFlowMod m)]
  draws : ∀ p, w'.ctl.draws p = if p = m.pfx then w.ctl.draws p + 3 else w.ctl.draws p
  packetIns : w'.ctl.counters .packetIns = w.ctl.counters .packetIns + 1
  flowModsApplied : w'.ctl.counters .flowModsApplied = w.ctl.counters .flowModsApplied
  syncAcksDropped : w'.ctl.counters .syncAcksDropped = w.ctl.counters .syncAcksDropped

theorem draws_draw (p q : Name) (w : FlowTableWorld σ) :
    (draw p w).ctl.draws q = if q = p then w.ctl.draws q + 1 else w.ctl.draws q := rfl

theorem submits_submitFlowUpdate (h : Lossless tc cfg) (hexpiry : m.routeExpiry = 0)
    (hdraws : w.ctl.draws m.pfx % 6 = 0) :
    Submits tc m w (submitFlowUpdate cfg cbs m w) := by
  have hcontrol : cfg.delay m.pfx (w.ctl.draws m.pfx + 1) = 0 := by
    rw [h.delay, if_neg (by omega)]
  have hflowMod : cfg.delay m.pfx (w.ctl.draws m.pfx + 1 + 1) = tc := by
    rw [h.delay, if_pos (by omega)]
  have heq : submitFlowUpdate cfg cbs m w =
      scheduleFlowMod cfg m (count .packetInsDelivered
        (draw m.pfx (draw m.pfx (count .packetIns w)))) := by
    simp [submitFlowUpdate, shouldDrop, sampleDelay, h.drop, draws_draw, count, hcontrol,
      acceptControl, isExpiredAt_of_zero hexpiry, h.guard]
  rw [heq]
  constructor
  case clock => rfl
  case env => rfl
  case events => simp [scheduleFlowMod, sampleDelay, schedule, draw, count, hflowMod]
  case draws =>
    intro p
    by_cases hp : p = m.pfx
    · simp [scheduleFlowMod, sampleDelay, schedule, draw, count, hp]
    · simp [scheduleFlowMod, sampleDelay, schedule, draw, count, hp]
  case packetIns => rfl
  case flowModsApplied => rfl
  case syncAcksDropped => rfl

/-! ## Application and acknowledgement -/

/-- The world that the apply sink gets. -/
def attempted (m : ControlMessage) (w : FlowTableWorld σ) : FlowTableWorld σ :=
  draw m.pfx (count .flowModAttempts w)

/-- The world that the SyncAck callback gets, from what the sink has left. -/
def acknowledged (m : ControlMessage) (w : FlowTableWorld σ) : FlowTableWorld σ :=
  let applied := { count .flowModsApplied w with
    log := w.log ++ [.applied { m with type := .flowMod }] }
  let attempt := count .syncAckAttempts (draw m.pfx applied)
  { draw m.pfx attempt with
    log := attempt.log ++ [.acked attempt.clock.now { m with type := .syncAck }] }

/-- A FlowMod that the sink applies is acknowledged at once. -/
theorem attemptFlowMod_of_lossless (h : Lossless tc cfg) (hexpiry : m.routeExpiry = 0)
    {apply : ControlMessage → FlowTableWorld σ → Bool × FlowTableWorld σ}
    (happly : cbs.apply = some apply)
    {callback : ControlMessage → FlowTableWorld σ → FlowTableWorld σ}
    (hcallback : cbs.syncAck = some callback) {left : FlowTableWorld σ}
    (hleft : apply { m with type := .flowMod } (attempted m w) = (true, left))
    (hdraws : left.ctl.draws m.pfx % 6 = 4) :
    attemptFlowMod cfg cbs m w =
      count .syncAcksSent (callback { m with type := .syncAck } (acknowledged m left)) := by
  have hdelay : cfg.delay m.pfx (left.ctl.draws m.pfx) = 0 := by
    rw [h.delay, if_neg (by omega)]
  have hexpired := isExpiredAt_of_zero hexpiry
  have hsend : sendFlowMod cfg cbs m (count .flowModAttempts w) =
      applyFlowMod cfg cbs m (attempted m w) := by
    simp [sendFlowMod, shouldDrop, h.drop, attempted]
  have happlied : applyFlowMod cfg cbs m (attempted m w) =
      sendSyncAck cfg cbs m { count .flowModsApplied left with
        log := left.log ++ [.applied { m with type := .flowMod }] } := by
    simp only [applyFlowMod, happly, hleft, recordApplied, h.guard, scheduleSyncAck]
    rfl
  simp only [attemptFlowMod, hexpired, h.guard, Bool.false_and, Bool.false_eq_true, if_false]
  rw [hsend, happlied]
  simp only [sendSyncAck, sampleDelay, count, hdelay, if_true, deliverSyncAck, shouldDrop,
    h.drop, hexpired, Bool.false_eq_true, if_false, handOver, hcallback, acknowledged, draw]

end FlowTableController

end Statim
