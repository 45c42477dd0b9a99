import Mathlib.Logic.Relation
import Statim.Control.FlowTableController

/-!
# What the handlers of the flow-table controller can do

Every handler is a sequence of a few kinds of actions, all of them about the one
message it handles.  Properties that span the two controllers are proved action
by action, without unfolding a handler again.
-/

namespace Statim

open Support

namespace FlowTableController

variable {σ : Type} {cfg : FlowTableConfig} {cbs : FlowTableCallbacks σ}
  {w w' : FlowTableWorld σ} {m : ControlMessage}

/-- One action of a handler that works on message `m`. -/
inductive Action (cbs : FlowTableCallbacks σ) (m : ControlMessage) :
    FlowTableWorld σ → FlowTableWorld σ → Prop
  /-- Counters, draws and the guard's records change. -/
  | book {w : FlowTableWorld σ} (states : Std.TreeMap Name PrefixState)
      (counters : FlowTableCounter → Nat) (draws : Name → Nat) :
      Action cbs m w { w with ctl := { w.ctl with
        prefixStates := states, counters := counters, draws := draws } }
  | schedule {w : FlowTableWorld σ} (delay : Nat) {event : FlowTableEvent}
      (h : event.message = m) :
      Action cbs m w (FlowTableController.schedule delay event w)
  | accept (w : FlowTableWorld σ) : Action cbs m w { w with log := w.log ++ [.accepted m] }
  /-- The sink answers false. -/
  | refuse {w : FlowTableWorld σ} {apply} (hsink : cbs.apply = some apply)
      (h : (apply { m with type := .flowMod } w).1 = false) :
      Action cbs m w (apply { m with type := .flowMod } w).2
  /-- The sink answers true. -/
  | apply {w : FlowTableWorld σ} {apply} (hsink : cbs.apply = some apply)
      (h : (apply { m with type := .flowMod } w).1 = true) :
      Action cbs m w { (apply { m with type := .flowMod } w).2 with
        log := (apply { m with type := .flowMod } w).2.log ++
          [.applied { m with type := .flowMod }] }
  /-- A SyncAck is handed over before its deadline. -/
  | ack {w : FlowTableWorld σ} {callback} (hsync : cbs.syncAck = some callback)
      (h : m.isExpiredAt w.clock.now = false) :
      Action cbs m w (callback { m with type := .syncAck }
        { w with log := w.log ++ [.acked w.clock.now { m with type := .syncAck }] })

/-- Any number of actions for one message. -/
abbrev Actions (cbs : FlowTableCallbacks σ) (m : ControlMessage) :
    FlowTableWorld σ → FlowTableWorld σ → Prop :=
  Relation.ReflTransGen (Action cbs m)

theorem actions_count (c : FlowTableCounter) (w : FlowTableWorld σ) :
    Actions cbs m w (count c w) :=
  .single (.book w.ctl.prefixStates _ w.ctl.draws)

theorem actions_draw (p : Name) (w : FlowTableWorld σ) : Actions cbs m w (draw p w) :=
  .single (.book w.ctl.prefixStates w.ctl.counters _)

theorem actions_schedule (delay : Nat) {event : FlowTableEvent} (h : event.message = m)
    (w : FlowTableWorld σ) : Actions cbs m w (schedule delay event w) :=
  .single (.schedule delay h)

theorem actions_deliverSyncAck (m : ControlMessage) (w : FlowTableWorld σ) :
    Actions cbs m w (deliverSyncAck cfg cbs m w) := by
  simp only [deliverSyncAck]
  have hstart : Actions cbs m w (count .syncAckAttempts w) := actions_count _ _
  split
  · exact hstart.trans (actions_count _ _)
  next hlive =>
    have hdraw := hstart.trans (actions_draw m.pfx _)
    split
    · exact hdraw.trans (actions_count _ _)
    · refine Relation.ReflTransGen.trans (hdraw.trans ?_) (actions_count _ _)
      unfold handOver
      split
      · exact .refl
      next callback hsync => exact .single (.ack hsync ((Bool.not_eq_true _).mp hlive))

theorem actions_sendSyncAck (m : ControlMessage) (w : FlowTableWorld σ) :
    Actions cbs m w (sendSyncAck cfg cbs m w) := by
  simp only [sendSyncAck]
  have hdraw : Actions cbs m w (sampleDelay cfg m.pfx w).2 := actions_draw _ _
  split
  · exact hdraw.trans (actions_deliverSyncAck m _)
  · exact hdraw.trans (actions_schedule _ (by rfl) _)

theorem actions_scheduleSyncAck (m : ControlMessage) (replay : Bool) (w : FlowTableWorld σ) :
    Actions cbs m w (scheduleSyncAck cfg cbs m replay w) := by
  unfold scheduleSyncAck
  split
  · exact (actions_count _ _).trans (actions_sendSyncAck m _)
  · exact actions_sendSyncAck m w

theorem actions_scheduleFlowMod (m : ControlMessage) (w : FlowTableWorld σ) :
    Actions cbs m w (scheduleFlowMod cfg m w) := by
  have haccept : Actions cbs m w { w with log := w.log ++ [.accepted m] } :=
    .single (.accept w)
  exact (haccept.trans (actions_draw m.pfx _)).trans (actions_schedule _ (by rfl) _)

theorem actions_acceptControl (m : ControlMessage) (w : FlowTableWorld σ) :
    Actions cbs m w (acceptControl cfg cbs m w) := by
  simp only [acceptControl]
  have hstart : Actions cbs m w (count .packetInsDelivered w) := actions_count _ _
  split
  · exact hstart.trans (actions_count _ _)
  split
  swap
  · exact hstart.trans (actions_scheduleFlowMod m _)
  generalize (count .packetInsDelivered w).ctl.prefixStates[m.pfx]?.getD {} = state
  have htouch : Actions cbs m w { count .packetInsDelivered w with
      ctl := { (count .packetInsDelivered w).ctl with
        prefixStates := (count .packetInsDelivered w).ctl.prefixStates.insert m.pfx state } } :=
    hstart.tail (.book _ _ _)
  split
  · exact htouch.trans (actions_count _ _)
  split
  · have hdup := htouch.trans (actions_count .duplicatePacketIns _)
    split
    · exact hdup.trans (actions_count _ _)
    · split
      · exact hdup.trans (actions_scheduleSyncAck m true _)
      · exact hdup.trans (actions_scheduleFlowMod m _)
  · exact (htouch.tail (.book _ _ _)).trans (actions_scheduleFlowMod m _)

/-- A submission is a sequence of actions for the submitted message. -/
theorem actions_submitFlowUpdate (m : ControlMessage) (w : FlowTableWorld σ) :
    Actions cbs m w (submitFlowUpdate cfg cbs m w) := by
  simp only [submitFlowUpdate]
  have hstart : Actions cbs m w (shouldDrop cfg m.pfx (count .packetIns w)).2 :=
    (actions_count _ _).trans (actions_draw m.pfx _)
  split
  · exact hstart.trans (actions_count _ _)
  · have hdraw := hstart.trans (actions_draw m.pfx _)
    split
    · exact hdraw.trans (actions_acceptControl m _)
    · exact hdraw.trans (actions_schedule _ (by rfl) _)

theorem actions_applyFlowMod (m : ControlMessage) (w : FlowTableWorld σ) :
    Actions cbs m w (applyFlowMod cfg cbs m w) := by
  simp only [applyFlowMod]
  split
  · exact actions_count _ _
  next apply hsink =>
    split
    next hanswer =>
      rw [Bool.not_eq_true'] at hanswer
      exact Relation.ReflTransGen.head (.refuse hsink hanswer) (actions_count _ _)
    next hanswer =>
      rw [Bool.not_eq_true', Bool.not_eq_false] at hanswer
      refine Relation.ReflTransGen.trans ?_ (actions_scheduleSyncAck m false _)
      -- the counter and the guard's record do not touch the history
      refine Relation.ReflTransGen.head (.apply hsink hanswer) ?_
      unfold recordApplied
      split
      · exact .single (.book _ _ _)
      · exact actions_count _ _

theorem actions_attemptFlowMod (m : ControlMessage) (w : FlowTableWorld σ) :
    Actions cbs m w (attemptFlowMod cfg cbs m w) := by
  simp only [attemptFlowMod]
  have hstart : Actions cbs m w (count .flowModAttempts w) := actions_count _ _
  split
  · exact hstart.trans (actions_count _ _)
  split
  · exact hstart.trans (actions_count _ _)
  split
  · exact (hstart.trans (actions_count _ _)).trans (actions_scheduleSyncAck m true _)
  · simp only [sendFlowMod]
    have hdraw := hstart.trans (actions_draw m.pfx _)
    split
    · exact hdraw.trans (actions_count _ _)
    · exact hdraw.trans (actions_applyFlowMod m _)

/-- An event runs actions for its own message. -/
theorem actions_handle (event : FlowTableEvent) (w : FlowTableWorld σ) :
    Actions cbs event.message w (handle cfg cbs event w) := by
  cases event with
  | acceptControl m => exact actions_acceptControl m w
  | attemptFlowMod m => exact actions_attemptFlowMod m w
  | deliverSyncAck m => exact actions_deliverSyncAck m w

end FlowTableController

end Statim
