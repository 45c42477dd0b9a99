import Statim.Engine.PrefixViews

/-!
# What a handler leaves alone

A handler for one prefix leaves everything of every other prefix as it was, also
of prefixes and extensions of its own.  The one shared resource are the event
identifiers: a handler cancels events by their identifiers, so the two prefixes
must not hold handles of each other's events.
-/

namespace Statim

open Support LocalRouteController

namespace Link

variable {p q : Name} {w w' v : LinkWorld} {m : ControlMessage} {cfg : LinkConfig}

open FlowTableController (count draw shouldDrop sampleDelay handOver deliverSyncAck sendSyncAck
  scheduleSyncAck scheduleFlowMod acceptControl submitFlowUpdate recordApplied applyFlowMod
  sendFlowMod attemptFlowMod isStaleFlowMod isAppliedFlowMod handle)

/-- No timer handle of `q` names an event of `p`. -/
structure Apart (p q : Name) (w : LinkWorld) : Prop where
  lifetime : ∀ e ∈ w.ctl.events, e.event.pfx = p → w.ctl.lifetimeTimers[q]? ≠ some e.uid
  retry : ∀ e ∈ w.ctl.events, e.event.pfx = p →
    w.ctl.pendingControllerRequests[q]?.map (·.timer) ≠ some e.uid
  issued : ∀ e ∈ w.ctl.events, e.event.pfx = p → e.uid < w.clock.uid

/-- A handler for `q` passes by `p`: no time passes, and nothing about `p` changes. -/
structure Passes (p q : Name) (w w' : LinkWorld) : Prop
    extends SameAt p w w', Apart p q w' where
  now : w'.clock.now = w.clock.now
  uid : w.clock.uid ≤ w'.clock.uid

/-- The same, as long as the two prefixes are apart before. -/
def Beside (p q : Name) (w w' : LinkWorld) : Prop := Apart p q w → Passes p q w w'

theorem Beside.refl (p q : Name) (w : LinkWorld) : Beside p q w w :=
  fun hapart => { SameAt.refl p w, hapart with now := rfl, uid := Nat.le_refl _ }

theorem Beside.trans {w'' : LinkWorld} (h : Beside p q w w') (h' : Beside p q w' w'') :
    Beside p q w w'' := by
  intro hapart
  have hfirst := h hapart
  have hsecond := h' hfirst.toApart
  exact
    { hfirst.toSameAt.trans hsecond.toSameAt, hsecond.toApart with
      now := hsecond.now.trans hfirst.now
      uid := Nat.le_trans hfirst.uid hsecond.uid }

/-! ## The flow-table controller -/

/-- `Beside`, seen from the flow-table controller. -/
abbrev CentralBeside (p q : Name) (c c' : FlowTableWorld LinkCentralEnv) : Prop :=
  Beside p q (toTemporary c) (toTemporary c')

theorem beside_count (k : FlowTableCounter) (c : FlowTableWorld LinkCentralEnv) :
    CentralBeside p q c (count k c) :=
  fun hapart => { Beside.refl p q (toTemporary c) hapart with }

theorem beside_draw (hpq : q ≠ p) (c : FlowTableWorld LinkCentralEnv) :
    CentralBeside p q c (draw q c) :=
  fun hapart => { Beside.refl p q (toTemporary c) hapart with
    draws := by simp [toTemporary, draw, Ne.symm hpq] }

theorem beside_schedule (delay : Nat) {event : FlowTableEvent} (hevent : event.message = m)
    (hm : m.pfx ≠ p) (c : FlowTableWorld LinkCentralEnv) :
    CentralBeside p q c (FlowTableController.schedule delay event c) :=
  fun hapart => { Beside.refl p q (toTemporary c) hapart with
    uid := Nat.le_succ _
    issued := fun e he hpfx => Nat.lt_succ_of_lt (hapart.issued e he hpfx)
    messages := by
      simp only [toTemporary, FlowTableController.schedule]
      rw [messagesOf_append, Clock.schedule_event, hevent, if_neg hm, List.append_nil] }

theorem beside_observe {o : FlowTableObs} (ho : (Loop.obsMessage o).pfx ≠ p)
    (c : FlowTableWorld LinkCentralEnv) : CentralBeside p q c { c with log := c.log ++ [o] } :=
  fun hapart => { Beside.refl p q (toTemporary c) hapart with
    history := by
      simp only [toTemporary]
      rw [historyOf_append, if_neg ho, List.append_nil] }

theorem beside_putState (hpq : q ≠ p) (state : PrefixState) (c : FlowTableWorld LinkCentralEnv) :
    CentralBeside p q c
      { c with ctl := { c.ctl with prefixStates := c.ctl.prefixStates.insert q state } } :=
  fun hapart => { Beside.refl p q (toTemporary c) hapart with
    state := by simp [toTemporary, Std.TreeMap.getElem?_insert, hpq] }

theorem liveHop?_erase_of_ne (now : Time) (t : TemporaryForwardingTable) (hpq : q ≠ p)
    (port : Port) : (t.erase q).liveHop? now p port = t.liveHop? now p port := by
  simp [TemporaryForwardingTable.liveHop?, TemporaryForwardingTable.hop?_erase, Ne.symm hpq]

/-- Retiring `q` cancels no event of `p`. -/
theorem beside_retire (hpq : q ≠ p) (counters : LocalCounters) (w : LinkWorld) :
    Beside p q w { w with ctl := { retire q w.ctl with counters := counters } } := by
  intro hapart
  have hcancel : ∀ e ∈ cancel? w.ctl.lifetimeTimers[q]? w.ctl.events, e.event.pfx = p →
      w.ctl.pendingControllerRequests[q]?.map (·.timer) ≠ some e.uid :=
    fun e he hpfx => hapart.retry e (mem_cancel?.mp he).1 hpfx
  exact { Beside.refl p q w hapart with
    seq := by simp [LocalRouteController.retire, Std.TreeMap.getElem?_erase, hpq]
    expiry := by simp [LocalRouteController.retire, Std.TreeMap.getElem?_erase, hpq]
    timer := by simp [LocalRouteController.retire, Std.TreeMap.getElem?_erase, hpq]
    pending := by simp [LocalRouteController.retire, Std.TreeMap.getElem?_erase, hpq]
    hops := fun port => (liveHop?_erase_of_ne _ _ hpq port).symm
    timers := by
      simp only [LocalRouteController.retire]
      rw [timersOf_cancel?_of_ne hcancel, timersOf_cancel?_of_ne hapart.lifetime]
    lifetime := by simp [LocalRouteController.retire]
    retry := by simp [LocalRouteController.retire]
    issued := fun e he hpfx => hapart.issued e (mem_cancel?.mp (mem_cancel?.mp he).1).1 hpfx }

theorem beside_note {o : LocalObs} (ho : o.pfx ≠ p) (w : LinkWorld) :
    Beside p q w { w with log := w.log ++ [o] } :=
  fun hapart => { Beside.refl p q w hapart with
    log := by rw [logOf_append, if_neg ho, List.append_nil] }

theorem beside_acceptResponse (hpq : m.pfx ≠ p) (cfg : LocalConfig) (w : LinkWorld) :
    Beside p m.pfx w (acceptResponse cfg m w).2 := by
  rcases acceptResponse_cases cfg m w with ⟨counters, heq⟩ | ⟨seq, -, -, -, -, -, heq⟩
  · rw [heq]
    exact fun hapart => { Beside.refl p m.pfx w hapart with }
  · rw [heq]
    exact (beside_note (o := .completed w.clock.now m seq m.routeExpiry
      (storedPorts w.ctl m.pfx)) hpq w).trans (beside_retire hpq _ _)

theorem beside_handOver (hm : m.pfx ≠ p) (c : FlowTableWorld LinkCentralEnv) :
    CentralBeside p m.pfx c (handOver (centralCallbacks cfg) m c) := by
  simp only [handOver, centralCallbacks, onSyncAck, CentralBeside, toTemporary_toCentral]
  rw [Loop.handleControlResponse_eq cfg.temporary rfl]
  exact (beside_observe (o := .acked c.clock.now m) hm c).trans
    (beside_acceptResponse hm cfg.temporary _)

theorem beside_deliverSyncAck (hm : m.pfx ≠ p) (c : FlowTableWorld LinkCentralEnv) :
    CentralBeside p m.pfx c (deliverSyncAck cfg.central (centralCallbacks cfg) m c) := by
  simp only [deliverSyncAck]
  have hstart : CentralBeside p m.pfx c (count .syncAckAttempts c) := beside_count _ _
  have hdraw := hstart.trans (beside_draw hm _)
  split
  · exact hstart.trans (beside_count _ _)
  split
  · exact hdraw.trans (beside_count _ _)
  · refine (hdraw.trans ?_).trans (beside_count _ _)
    exact beside_handOver (m := { m with type := .syncAck }) hm _

theorem beside_sendSyncAck (hm : m.pfx ≠ p) (c : FlowTableWorld LinkCentralEnv) :
    CentralBeside p m.pfx c (sendSyncAck cfg.central (centralCallbacks cfg) m c) := by
  simp only [sendSyncAck]
  have hdraw : CentralBeside p m.pfx c (sampleDelay cfg.central m.pfx c).2 := beside_draw hm c
  split
  · exact hdraw.trans (beside_deliverSyncAck hm _)
  · exact hdraw.trans (beside_schedule _ (by rfl) hm _)

theorem beside_scheduleSyncAck (hm : m.pfx ≠ p) (replay : Bool)
    (c : FlowTableWorld LinkCentralEnv) :
    CentralBeside p m.pfx c (scheduleSyncAck cfg.central (centralCallbacks cfg) m replay c) := by
  unfold scheduleSyncAck
  split
  · exact (beside_count _ _).trans (beside_sendSyncAck hm _)
  · exact beside_sendSyncAck hm c

theorem beside_scheduleFlowMod (hm : m.pfx ≠ p) (c : FlowTableWorld LinkCentralEnv) :
    CentralBeside p m.pfx c (scheduleFlowMod cfg.central m c) := by
  have hnoted : CentralBeside p m.pfx c { c with log := c.log ++ [.accepted m] } :=
    beside_observe (o := .accepted m) hm c
  exact (hnoted.trans (beside_draw hm _)).trans (beside_schedule _ (by rfl) hm _)

theorem beside_acceptControl (hm : m.pfx ≠ p) (c : FlowTableWorld LinkCentralEnv) :
    CentralBeside p m.pfx c (acceptControl cfg.central (centralCallbacks cfg) m c) := by
  simp only [acceptControl]
  have hstart : CentralBeside p m.pfx c (count .packetInsDelivered c) := beside_count _ _
  split
  · exact hstart.trans (beside_count _ _)
  split
  swap
  · exact hstart.trans (beside_scheduleFlowMod hm _)
  generalize (count .packetInsDelivered c).ctl.prefixStates[m.pfx]?.getD {} = state
  have htouch := hstart.trans (beside_putState hm state _)
  split
  · exact htouch.trans (beside_count _ _)
  split
  · have hdup := htouch.trans (beside_count .duplicatePacketIns _)
    split
    · exact hdup.trans (beside_count _ _)
    split
    · exact hdup.trans (beside_scheduleSyncAck hm true _)
    · exact hdup.trans (beside_scheduleFlowMod hm _)
  · exact (htouch.trans (beside_putState hm _ _)).trans (beside_scheduleFlowMod hm _)

theorem beside_submitFlowUpdate (hm : m.pfx ≠ p) (c : FlowTableWorld LinkCentralEnv) :
    CentralBeside p m.pfx c (submitFlowUpdate cfg.central (centralCallbacks cfg) m c) := by
  simp only [submitFlowUpdate]
  have hdraw : CentralBeside p m.pfx c (shouldDrop cfg.central m.pfx (count .packetIns c)).2 :=
    (beside_count _ _).trans (beside_draw hm _)
  split
  · exact hdraw.trans (beside_count _ _)
  have hdelay := hdraw.trans (beside_draw hm _)
  split
  · exact hdelay.trans (beside_acceptControl hm _)
  · exact hdelay.trans (beside_schedule _ (by rfl) hm _)

theorem beside_onFlowMod (hm : m.pfx ≠ p) (c : FlowTableWorld LinkCentralEnv) :
    CentralBeside p q c (onFlowMod cfg m c).2 :=
  fun hapart => { Beside.refl p q (toTemporary c) hapart with
    flowMods := by
      simp only [toTemporary, onFlowMod]
      rw [flowModsOf_append, if_neg hm, List.append_nil] }

theorem beside_recordApplied (hm : m.pfx ≠ p) (cfg : FlowTableConfig)
    (c : FlowTableWorld LinkCentralEnv) :
    CentralBeside p m.pfx c { c with ctl := recordApplied cfg m c.ctl } := by
  simp only [recordApplied]
  split
  · exact beside_putState hm _ c
  · exact Beside.refl p m.pfx _

theorem beside_applyFlowMod (hm : m.pfx ≠ p) (c : FlowTableWorld LinkCentralEnv) :
    CentralBeside p m.pfx c (applyFlowMod cfg.central (centralCallbacks cfg) m c) := by
  simp only [applyFlowMod, centralCallbacks]
  have hsunk : CentralBeside p m.pfx c (onFlowMod cfg { m with type := .flowMod } c).2 :=
    beside_onFlowMod (m := { m with type := .flowMod }) hm c
  split
  · exact hsunk.trans (beside_count _ _)
  · have hcounted := hsunk.trans (beside_count .flowModsApplied _)
    have hnoted := hcounted.trans
      (beside_observe (o := .applied { m with type := .flowMod }) hm _)
    exact (hnoted.trans (beside_recordApplied hm cfg.central _)).trans
      (beside_scheduleSyncAck hm false _)

theorem beside_attemptFlowMod (hm : m.pfx ≠ p) (c : FlowTableWorld LinkCentralEnv) :
    CentralBeside p m.pfx c (attemptFlowMod cfg.central (centralCallbacks cfg) m c) := by
  simp only [attemptFlowMod, sendFlowMod]
  have hstart : CentralBeside p m.pfx c (count .flowModAttempts c) := beside_count _ _
  split
  · exact hstart.trans (beside_count _ _)
  split
  · exact hstart.trans (beside_count _ _)
  split
  · exact (hstart.trans (beside_count _ _)).trans (beside_scheduleSyncAck hm true _)
  have hdraw := hstart.trans (beside_draw hm _)
  split
  · exact hdraw.trans (beside_count _ _)
  · exact hdraw.trans (beside_applyFlowMod hm _)

/-- A message leaves the other prefixes alone. -/
theorem beside_handle {event : FlowTableEvent} (hevent : event.message.pfx ≠ p)
    (c : FlowTableWorld LinkCentralEnv) : CentralBeside p event.message.pfx c
      (handle cfg.central (centralCallbacks cfg) event c) := by
  cases event with
  | acceptControl m => exact beside_acceptControl hevent c
  | attemptFlowMod m => exact beside_attemptFlowMod hevent c
  | deliverSyncAck m => exact beside_deliverSyncAck hevent c

/-! ## The local controller -/

theorem beside_dispatch (hm : m.pfx ≠ p) (w : LinkWorld) :
    Beside p m.pfx w (dispatch (temporaryCallbacks cfg) m w) :=
  (beside_note (o := .request w.clock.now m) hm w).trans
    (beside_submitFlowUpdate hm (toCentral { w with log := w.log ++ [.request w.clock.now m] }))

theorem beside_replaceEntry {u : Admission} (hu : u.pfx ≠ p) (w : LinkWorld) :
    Beside p u.pfx w { w with ctl := replaceEntry w.clock.now u w.ctl } := by
  intro hapart
  refine { Beside.refl p u.pfx w hapart with seq := ?_, expiry := ?_, hops := fun port => ?_ }
  · simp [replaceEntry, Std.TreeMap.getElem?_insert, hu]
  · simp [replaceEntry, Std.TreeMap.getElem?_insert, hu]
  · simp only [replaceEntry, TemporaryForwardingTable.liveHop?]
    rw [TemporaryForwardingTable.hop?_insertUntil, if_neg (Ne.symm hu)]
    split
    · rw [TemporaryForwardingTable.hop?_erase, if_neg (Ne.symm hu)]
    · rfl

/-- An event of `p` was there before an event of another prefix was rescheduled. -/
theorem mem_of_mem_reschedule {events : List (Scheduled LocalEvent)} (handle : Option Nat)
    {e new : Scheduled LocalEvent} (he : e ∈ cancel? handle events ++ [new])
    (hpfx : e.event.pfx = p) (hnew : new.event.pfx ≠ p) : e ∈ events := by
  rcases List.mem_append.mp he with he | he
  · exact (mem_cancel?.mp he).1
  · rw [List.mem_singleton] at he
    subst he
    exact absurd hpfx hnew

theorem Apart.uid_ne (h : Apart p q w) {e : Scheduled LocalEvent} (he : e ∈ w.ctl.events)
    (hpfx : e.event.pfx = p) : some w.clock.uid ≠ some e.uid :=
  fun heq => Nat.ne_of_gt (h.issued e he hpfx) (Option.some.inj heq)

theorem beside_restartLifetimeTimer {u : Admission} (hu : u.pfx ≠ p) (w : LinkWorld) :
    Beside p u.pfx w (restartLifetimeTimer u w) := by
  intro hapart
  have hcancelled := timersOf_cancel?_of_ne hapart.lifetime
  unfold restartLifetimeTimer
  split
  · have hmem : ∀ e ∈ cancel? w.ctl.lifetimeTimers[u.pfx]? w.ctl.events ++
        [w.clock.schedule u.lifetime.toNat (.expireEntryBySeq u.pfx u.seq)],
        e.event.pfx = p → e ∈ w.ctl.events :=
      fun e he hpfx => mem_of_mem_reschedule _ he hpfx hu
    exact { Beside.refl p u.pfx w hapart with
      timer := by simp [Std.TreeMap.getElem?_insert, Std.TreeMap.getElem?_erase, hu]
      timers := by
        rw [timersOf_append, if_neg (by exact hu), List.append_nil, hcancelled]
      lifetime := fun e he hpfx => by
        simpa using hapart.uid_ne (hmem e he hpfx) hpfx
      retry := fun e he hpfx => hapart.retry e (hmem e he hpfx) hpfx
      issued := fun e he hpfx => Nat.lt_succ_of_lt (hapart.issued e (hmem e he hpfx) hpfx)
      uid := Nat.le_succ _ }
  · exact { Beside.refl p u.pfx w hapart with
      timer := by simp [Std.TreeMap.getElem?_erase, hu]
      timers := hcancelled.symm
      lifetime := by simp
      retry := fun e he hpfx => hapart.retry e (mem_cancel?.mp he).1 hpfx
      issued := fun e he hpfx => hapart.issued e (mem_cancel?.mp he).1 hpfx }

theorem beside_replacePending {u : Admission} (hu : u.pfx ≠ p) (cfg : LocalConfig)
    (w : LinkWorld) : Beside p u.pfx w (replacePending cfg u w) := by
  unfold replacePending
  split
  swap
  · exact Beside.refl p u.pfx w
  intro hapart
  have hcancelled := timersOf_cancel?_of_ne hapart.retry
  have hmem : ∀ e ∈ cancel? (w.ctl.pendingControllerRequests[u.pfx]?.map (·.timer)) w.ctl.events ++
      [w.clock.schedule cfg.controllerRetryTimeout.toNat
        (.onControllerRetryTimeout u.pfx u.seq)], e.event.pfx = p → e ∈ w.ctl.events :=
    fun e he hpfx => mem_of_mem_reschedule _ he hpfx hu
  exact { Beside.refl p u.pfx w hapart with
    pending := by simp [Std.TreeMap.getElem?_insert, hu]
    timers := by
      rw [timersOf_append, if_neg (by exact hu), List.append_nil, hcancelled]
    lifetime := fun e he hpfx => hapart.lifetime e (hmem e he hpfx) hpfx
    retry := fun e he hpfx => by
      simpa using hapart.uid_ne (hmem e he hpfx) hpfx
    issued := fun e he hpfx => Nat.lt_succ_of_lt (hapart.issued e (hmem e he hpfx) hpfx)
    uid := Nat.le_succ _ }

theorem beside_stage {u : Admission} (hu : u.pfx ≠ p) (w : LinkWorld) :
    Beside p u.pfx w (stage cfg.temporary (temporaryCallbacks cfg) u w) := by
  have hreplaced := (beside_replaceEntry hu w).trans (beside_note (o := .admitted u) hu _)
  have hentered := hreplaced.trans (beside_restartLifetimeTimer hu _)
  refine Beside.trans ?_ (beside_replacePending hu cfg.temporary _)
  exact fun hapart => { hentered hapart with }

theorem beside_passGuard (hpq : q ≠ p) {cfg : LocalConfig} {seq : Nat}
    {ctl : LocalRouteController} (h : passGuard cfg q seq w.ctl = some ctl) :
    Beside p q w { w with ctl := ctl } := by
  have hmarked : Beside p q w
      { w with ctl := { w.ctl with highestSeenSeq := w.ctl.highestSeenSeq.insert q seq } } :=
    fun hapart => { Beside.refl p q w hapart with
      highestSeen := by simp [Std.TreeMap.getElem?_insert, hpq] }
  unfold passGuard at h
  split at h
  · split at h
    · split at h
      · cases h
      · cases h
        exact hmarked
    · cases h
      exact hmarked
  · cases h
    exact Beside.refl p q w

theorem beside_trace (hpq : q ≠ p) (nameHashes : Bytes) (prefixLen port seq : Nat) (ttl : Int)
    (w : LinkWorld) :
    Beside p q w (perform cfg w (.trace q nameHashes prefixLen port seq ttl)) := by
  simp only [perform]
  split
  · exact Beside.refl p q w
  next r hr =>
    have hreject : ∀ w : LinkWorld, Beside p q w { w with ctl := rejectTrace w.ctl } :=
      fun w hapart => { Beside.refl p q w hapart with }
    rcases applyTraceUpdate_cases hr with
      ⟨-, rfl⟩ | ⟨ctl, s, hpass, -, -, rfl⟩ | ⟨ctl, hpass, -, rfl⟩
    · exact hreject w
    · exact (beside_passGuard hpq hpass).trans (hreject _)
    · generalize hcand : candidate cfg.temporary q nameHashes prefixLen port seq ttl w = u
      obtain rfl : u.pfx = q := by
        rw [← hcand]
        rfl
      have hstaged : Beside p u.pfx w
          (stage cfg.temporary (temporaryCallbacks cfg) u { w with ctl := ctl }) :=
        (beside_passGuard hpq hpass).trans (beside_stage hpq _)
      exact hstaged.trans (beside_dispatch (m := u.packetIn) hpq _)

theorem beside_expireEntryBySeq (hpq : q ≠ p) (seq : Nat) (w : LinkWorld) :
    Beside p q w { w with ctl := expireEntryBySeq q seq w.ctl } := by
  intro hapart
  simp only [expireEntryBySeq]
  split
  swap
  · exact { Beside.refl p q w hapart with
      timer := by simp [Std.TreeMap.getElem?_erase, hpq]
      lifetime := by simp }
  have herased : Passes p q w { w with ctl := { w.ctl with
      temporaryFib := w.ctl.temporaryFib.erase q
      seqMap := w.ctl.seqMap.erase q
      routeExpiries := w.ctl.routeExpiries.erase q
      lifetimeTimers := w.ctl.lifetimeTimers.erase q } } :=
    { Beside.refl p q w hapart with
      seq := by simp [Std.TreeMap.getElem?_erase, hpq]
      expiry := by simp [Std.TreeMap.getElem?_erase, hpq]
      timer := by simp [Std.TreeMap.getElem?_erase, hpq]
      hops := fun port => (liveHop?_erase_of_ne _ _ hpq port).symm
      lifetime := by simp }
  split
  next pending hpending =>
    have hretry : ∀ e ∈ w.ctl.events, e.event.pfx = p → some pending.timer ≠ some e.uid := by
      intro e he hpfx
      have hne := hapart.retry e he hpfx
      rwa [hpending] at hne
    split
    · exact { herased with
        pending := by simp [Std.TreeMap.getElem?_erase, hpq]
        timers := (timersOf_cancel?_of_ne hretry).symm
        lifetime := by simp
        retry := by simp
        issued := fun e he hpfx => hapart.issued e (mem_cancel.mp he).1 hpfx }
    · exact herased
  next => exact herased

theorem beside_rescheduleRetry (hpq : q ≠ p) (cfg : LocalConfig) (seq : Nat) (w : LinkWorld) :
    Beside p q w (rescheduleRetry cfg q seq w) := by
  unfold rescheduleRetry
  split
  swap
  · exact Beside.refl p q w
  split
  swap
  · exact Beside.refl p q w
  intro hapart
  have hmem : ∀ e ∈ w.ctl.events ++ [w.clock.schedule cfg.controllerRetryTimeout.toNat
      (.onControllerRetryTimeout q seq)], e.event.pfx = p → e ∈ w.ctl.events :=
    fun e he hpfx => mem_of_mem_reschedule none he hpfx hpq
  exact { Beside.refl p q w hapart with
    pending := by simp [Std.TreeMap.getElem?_insert, hpq]
    timers := by rw [timersOf_append, if_neg (by exact hpq), List.append_nil]
    lifetime := fun e he hpfx => hapart.lifetime e (hmem e he hpfx) hpfx
    retry := fun e he hpfx => by
      simpa using hapart.uid_ne (hmem e he hpfx) hpfx
    issued := fun e he hpfx => Nat.lt_succ_of_lt (hapart.issued e (hmem e he hpfx) hpfx)
    uid := Nat.le_succ _ }

theorem beside_onControllerRetryTimeout (hpq : q ≠ p) (seq : Nat) (w : LinkWorld)
    (hmsg : ∀ pending, w.ctl.pendingControllerRequests[q]? = some pending → pending.msg.pfx = q) :
    Beside p q w (onControllerRetryTimeout cfg.temporary (temporaryCallbacks cfg) q seq w) := by
  simp only [onControllerRetryTimeout]
  split
  · exact Beside.refl p q w
  next pending hpending =>
    split
    · exact Beside.refl p q w
    split
    · exact fun hapart => { Beside.refl p q w hapart with
        pending := by simp [Std.TreeMap.getElem?_erase, hpq]
        retry := by simp }
    split
    · have hpfx := hmsg pending hpending
      refine Beside.trans (Beside.trans ?_ (hpfx ▸ beside_dispatch (hpfx ▸ hpq) _))
        (beside_rescheduleRetry hpq cfg.temporary seq _)
      exact fun hapart => { Beside.refl p q w hapart with
        pending := by simp [Std.TreeMap.getElem?_insert, hpq]
        retry := fun e he hpfx => by
          have hne := hapart.retry e he hpfx
          rw [hpending] at hne
          simpa using hne }
    · refine (beside_note (o := .withdrawn w.clock.now q seq) hpq w).trans fun hapart => ?_
      exact { Beside.refl p q _ hapart with
        seq := by simp [Std.TreeMap.getElem?_erase, hpq]
        expiry := by simp [Std.TreeMap.getElem?_erase, hpq]
        timer := by simp [Std.TreeMap.getElem?_erase, hpq]
        pending := by simp [Std.TreeMap.getElem?_erase, hpq]
        hops := fun port => (liveHop?_erase_of_ne _ _ hpq port).symm
        timers := (timersOf_cancel?_of_ne hapart.lifetime).symm
        lifetime := by simp
        retry := by simp
        issued := fun e he hpfx => hapart.issued e (mem_cancel?.mp he).1 hpfx }

end Link

end Statim
