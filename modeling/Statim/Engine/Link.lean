import Statim.Engine.LoopInvariant
import Statim.State.ForwardingReference

/-!
# The two controllers connected

The local route controller and the flow-table controller by themselves: requests
are submitted as PacketIns, SyncAcks come back as responses, and FlowMods go to a
sink that decides on the message alone.  Unlike the loop of the engine there is
no switch, and every step carries a label, so that a run can be edited.
-/

namespace Statim

open Support LocalRouteController

/-- The settings of the two controllers and the answers of the sink. -/
structure LinkConfig where
  temporary : LocalConfig
  central : FlowTableConfig
  verdict : ControlMessage → Bool

/-- The surroundings of the local controller. -/
structure LinkEnv where
  central : FlowTableController
  history : List FlowTableObs
  /-- The FlowMods handed to the sink, with their times. -/
  flowMods : List (Nat × ControlMessage)

abbrev LinkWorld := LocalWorld LinkEnv

/-- The surroundings of the flow-table controller. -/
structure LinkCentralEnv where
  ctl : LocalRouteController
  log : List LocalObs
  flowMods : List (Nat × ControlMessage)

namespace Link

/-! ## Wiring -/

def toCentral (w : LinkWorld) : FlowTableWorld LinkCentralEnv where
  clock := w.clock
  ctl := w.env.central
  log := w.env.history
  env := { ctl := w.ctl, log := w.log, flowMods := w.env.flowMods }

def toTemporary (w : FlowTableWorld LinkCentralEnv) : LinkWorld where
  clock := w.clock
  ctl := w.env.ctl
  log := w.env.log
  env := { central := w.ctl, history := w.log, flowMods := w.env.flowMods }

@[simp] theorem toTemporary_toCentral (w : LinkWorld) : toTemporary (toCentral w) = w := rfl

/-- The apply sink. -/
def onFlowMod (cfg : LinkConfig) (message : ControlMessage) (w : FlowTableWorld LinkCentralEnv) :
    Bool × FlowTableWorld LinkCentralEnv :=
  (cfg.verdict message, { w with env := { w.env with
    flowMods := w.env.flowMods ++ [(w.clock.now, message)] } })

/-- A response calls neither callback. -/
def noCallbacks : LocalCallbacks LinkEnv where
  request := none
  complete := none

/-- The SyncAck callback. -/
def onSyncAck (cfg : LinkConfig) (message : ControlMessage) (w : FlowTableWorld LinkCentralEnv) :
    FlowTableWorld LinkCentralEnv :=
  toCentral (handleControlResponse cfg.temporary noCallbacks message (toTemporary w)).2

def centralCallbacks (cfg : LinkConfig) : FlowTableCallbacks LinkCentralEnv where
  apply := some (onFlowMod cfg)
  syncAck := some (onSyncAck cfg)

/-- The request callback. -/
def onRequest (cfg : LinkConfig) (message : ControlMessage) (w : LinkWorld) : LinkWorld :=
  toTemporary (FlowTableController.submitFlowUpdate cfg.central (centralCallbacks cfg) message
    (toCentral w))

def temporaryCallbacks (cfg : LinkConfig) : LocalCallbacks LinkEnv where
  request := some (onRequest cfg)
  complete := none

/-! ## Labelled steps -/

/-- What happens in one step: a Trace update, a timer of the local controller, a
message in flight, a lookup in the temporary FIB, or something that concerns
neither controller, so that time passes and event identifiers are used up. -/
inductive LinkAction
  | trace (pfx : Name) (nameHashes : Bytes) (prefixLen : Nat) (port : Port) (seq : Nat)
      (ttl : Int)
  | timer (e : Scheduled LocalEvent)
  | message (e : Scheduled FlowTableEvent)
  | findExact (pfx : Name)
  | findLongestPrefix (name : Name)
  | wait (clock : Clock)
deriving DecidableEq, Repr

/-- The prefix of a Trace update, a timer or a message. -/
def LinkAction.pfx? : LinkAction → Option Name
  | .trace pfx _ _ _ _ _ => some pfx
  | .timer e => some e.event.pfx
  | .message e => some e.event.message.pfx
  | _ => none

/-- Nothing in either queue runs before this key. -/
def IsDue (w : LinkWorld) (key : Nat × Nat) : Prop :=
  (∀ e ∈ w.ctl.events, Precedes key e.key) ∧ ∀ e ∈ w.env.central.events, Precedes key e.key

instance (w : LinkWorld) (key : Nat × Nat) : Decidable (IsDue w key) :=
  inferInstanceAs (Decidable (_ ∧ _))

/-- When the simulator may take a step. -/
def Enabled (w : LinkWorld) : LinkAction → Prop
  | .timer e => e ∈ w.ctl.events ∧ IsDue w e.key
  | .message e => e ∈ w.env.central.events ∧ IsDue w e.key
  | .wait clock => w.clock.now ≤ clock.now ∧ w.clock.uid ≤ clock.uid ∧
      (∀ e ∈ w.ctl.events, clock.now ≤ e.ts) ∧ ∀ e ∈ w.env.central.events, clock.now ≤ e.ts
  | _ => True

instance (w : LinkWorld) (a : LinkAction) : Decidable (Enabled w a) := by
  cases a <;> unfold Enabled <;> infer_instance

/-- The world after a step; a Trace update that throws changes nothing. -/
def perform (cfg : LinkConfig) (w : LinkWorld) : LinkAction → LinkWorld
  | .trace pfx nameHashes prefixLen port seq ttl =>
    match applyTraceUpdate cfg.temporary (temporaryCallbacks cfg) pfx nameHashes prefixLen port
      seq ttl w with
    | .error _ => w
    | .ok r => r.2
  | .timer e => LocalRouteController.fire cfg.temporary (temporaryCallbacks cfg) e w
  | .message e =>
    toTemporary (FlowTableController.fire cfg.central (centralCallbacks cfg) e (toCentral w))
  | .findExact pfx => (LocalRouteController.findExact pfx w).2
  | .findLongestPrefix name => (LocalRouteController.findLongestPrefix name w).2
  | .wait clock => { w with clock := clock }

/-- The world after a list of steps. -/
def after (cfg : LinkConfig) (w : LinkWorld) (actions : List LinkAction) : LinkWorld :=
  actions.foldl (perform cfg) w

/-- Every step of the list is one the simulator may take. -/
def IsRun (cfg : LinkConfig) : LinkWorld → List LinkAction → Prop
  | _, [] => True
  | w, a :: actions => Enabled w a ∧ IsRun cfg (perform cfg w a) actions

/-- Two freshly constructed controllers. -/
structure IsInitial (w : LinkWorld) : Prop where
  temporary : IsFresh w
  central : FlowTableController.IsFresh (toCentral w)

/-! ## Each controller in the other's surroundings -/

variable {cfg : LinkConfig} {w w' : LinkWorld} {c c' : FlowTableWorld LinkCentralEnv}
  {m : ControlMessage} {busy : Option (Name × Nat)}

/-- Seen from the flow-table controller, a SyncAck changes its surroundings only. -/
theorem onSyncAck_frame (cfg : LinkConfig) (m : ControlMessage)
    (c : FlowTableWorld LinkCentralEnv) : onSyncAck cfg m c = { c with
      env := (toCentral (acceptResponse cfg.temporary m (toTemporary c)).2).env } := by
  obtain ⟨hclock, henv⟩ := Loop.acceptResponse_frame cfg.temporary m (toTemporary c)
  rw [onSyncAck, Loop.handleControlResponse_eq cfg.temporary rfl]
  unfold toCentral
  rw [hclock, henv]
  rfl

/-- Seen from the local controller, the flow-table controller responds and
changes its surroundings. -/
theorem reenter_action (h : FlowTableController.Action (centralCallbacks cfg) m c c') :
    Reenter cfg.temporary (toTemporary c) (toTemporary c') := by
  have hrefl : Reenter cfg.temporary (toTemporary c) (toTemporary c) := Reenter.refl _
  cases h with
  | book states counters draws => exact hrefl.other (Nat.le_refl _) _
  | schedule delay hevent => exact hrefl.other (Nat.le_succ _) _
  | accept => exact hrefl.other (Nat.le_refl _) _
  | refuse hsink hanswer =>
      cases hsink
      exact hrefl.other (Nat.le_refl _) _
  | apply hsink hanswer =>
      cases hsink
      exact hrefl.other (Nat.le_refl _) _
  | ack hsync hlive =>
      cases hsync
      have hnote : Reenter cfg.temporary (toTemporary c) (toTemporary { c with
          log := c.log ++ [.acked c.clock.now { m with type := .syncAck }] }) :=
        hrefl.other (Nat.le_refl _) _
      simp only [onSyncAck, toTemporary_toCentral]
      rw [Loop.handleControlResponse_eq cfg.temporary rfl]
      exact hnote.respond _

theorem reenter_actions (h : FlowTableController.Actions (centralCallbacks cfg) m c c') :
    Reenter cfg.temporary (toTemporary c) (toTemporary c') := by
  induction h with
  | refl => exact Reenter.refl _
  | tail _ haction ih => exact ih.trans (reenter_action haction)

theorem passive_temporaryCallbacks (cfg : LinkConfig) :
    Passive cfg.temporary (temporaryCallbacks cfg) where
  request := by
    rintro f ⟨⟩ m w
    exact reenter_actions (FlowTableController.actions_submitFlowUpdate m (toCentral w))
  complete := by
    rintro f ⟨⟩

/-! ## The queue of the flow-table controller -/

theorem queue_action (h : QueueInv c.clock c.ctl.events)
    (haction : FlowTableController.Action (centralCallbacks cfg) m c c') :
    QueueInv c'.clock c'.ctl.events := by
  cases haction with
  | book states counters draws => exact h
  | schedule delay hevent => exact h.schedule _ _
  | accept => exact h
  | refuse hsink hanswer =>
      cases hsink
      exact h
  | apply hsink hanswer =>
      cases hsink
      exact h
  | ack hsync hlive =>
      cases hsync
      rw [onSyncAck_frame]
      exact h

theorem queue_actions (h : QueueInv c.clock c.ctl.events)
    (hactions : FlowTableController.Actions (centralCallbacks cfg) m c c') :
    QueueInv c'.clock c'.ctl.events :=
  invariant_of_steps (fun c => QueueInv c.clock c.ctl.events) h
    (fun _ _ hc haction => queue_action hc haction) hactions

theorem queue_dispatch (h : QueueInv w.clock w.env.central.events) (m : ControlMessage) :
    QueueInv (dispatch (temporaryCallbacks cfg) m w).clock
      (dispatch (temporaryCallbacks cfg) m w).env.central.events :=
  queue_actions (c := toCentral { w with log := w.log ++ [.request w.clock.now m] }) h
    (FlowTableController.actions_submitFlowUpdate m _)

theorem queue_rescheduleRetry (h : QueueInv w.clock w.env.central.events) (p : Name) (s : Nat) :
    QueueInv (rescheduleRetry cfg.temporary p s w).clock
      (rescheduleRetry cfg.temporary p s w).env.central.events := by
  unfold rescheduleRetry
  split
  · split
    · exact h.mono rfl (Nat.le_succ _)
    · exact h
  · exact h

theorem queue_applyTraceUpdate (h : QueueInv w.clock w.env.central.events) {p : Name}
    {nameHashes : Bytes} {prefixLen port seq : Nat} {ttl : Int} {r : Bool × LinkWorld}
    (hr : applyTraceUpdate cfg.temporary (temporaryCallbacks cfg) p nameHashes prefixLen port seq
      ttl w = .ok r) : QueueInv r.2.clock r.2.env.central.events := by
  rcases applyTraceUpdate_cases hr with ⟨-, rfl⟩ | ⟨ctl, s, -, -, -, rfl⟩ | ⟨ctl, -, -, rfl⟩
  · exact h
  · exact h
  · refine queue_dispatch ?_ _
    obtain ⟨henv, huid⟩ := Loop.stage_frame cfg.temporary (temporaryCallbacks cfg) _ _
    rw [henv]
    exact h.mono (stages_stage _ _ _ _).now huid

theorem queue_fire (h : QueueInv w.clock w.env.central.events) {e : Scheduled LocalEvent}
    (hdue : IsDue w e.key) :
    QueueInv (fire cfg.temporary (temporaryCallbacks cfg) e w).clock
      (fire cfg.temporary (temporaryCallbacks cfg) e w).env.central.events := by
  have htake : QueueInv (take e w).clock (take e w).env.central.events :=
    h.advance fun e' he' => (hdue.2 e' he').fst_le
  unfold LocalRouteController.fire
  cases e.event with
  | expireEntryBySeq p s => exact htake
  | onControllerRetryTimeout p s =>
      simp only [onControllerRetryTimeout]
      split
      · exact htake
      split_ifs
      · exact htake
      · exact htake
      · refine queue_rescheduleRetry (queue_dispatch ?_ _) p s
        exact htake
      · exact htake

/-! ## The invariant along a run -/

structure LinkInv (cfg : LinkConfig) (w : LinkWorld) : Prop where
  temporary : LocalInv cfg.temporary (temporaryCallbacks cfg) none w
  central : QueueInv w.clock w.env.central.events

theorem LinkInv.initial (h : IsInitial w) : LinkInv cfg w where
  temporary := LocalInv.initial h.temporary
  central := by
    have hevents : w.env.central.events = [] := h.central.2.1
    rw [hevents]
    exact QueueInv.nil _

theorem LinkInv.perform (h : LinkInv cfg w) {a : LinkAction} (ha : Enabled w a) :
    LinkInv cfg (perform cfg w a) := by
  have hpassive := passive_temporaryCallbacks cfg
  cases a with
  | trace p nameHashes prefixLen port seq ttl =>
      simp only [Link.perform]
      split
      · exact h
      next r hr =>
        exact ⟨h.temporary.applyTraceUpdate hpassive hr, queue_applyTraceUpdate h.central hr⟩
  | timer e => exact ⟨h.temporary.fire hpassive ⟨ha.1, ha.2.1⟩, queue_fire h.central ha.2⟩
  | message e =>
      have hidle : LocalStep cfg.temporary (temporaryCallbacks cfg) w
          (toTemporary (FlowTableController.take e (toCentral w))) := by
        refine LocalStep.idle ⟨e.ts, w.clock.uid⟩ (h.central.due e ha.1) (Nat.le_refl _) ?_ _
        exact fun e' he' => (ha.2.1 e' he').fst_le
      refine ⟨?_, ?_⟩
      · exact (reenter_actions (FlowTableController.actions_handle e.event _)).inv
          (h.temporary.step hpassive hidle)
      · refine queue_actions ?_ (FlowTableController.actions_handle e.event _)
        exact (h.central.cancel e.uid).advance fun e' he' =>
          (ha.2.2 e' (mem_cancel.mp he').1).fst_le
  | findExact p => exact ⟨h.temporary.findExact p, h.central⟩
  | findLongestPrefix name => exact ⟨h.temporary.findLongestPrefix name, h.central⟩
  | wait clock =>
      obtain ⟨hnow, huid, hdue, hdue'⟩ := ha
      refine ⟨h.temporary.step hpassive (.idle clock hnow huid hdue w.env), ?_⟩
      exact ⟨h.central.distinct, fun e he => Nat.lt_of_lt_of_le (h.central.issued e he) huid, hdue'⟩

end Link

end Statim
