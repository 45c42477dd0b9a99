import Statim.Engine.Link

/-!
# What a prefix sees of the two controllers

Everything that belongs to one prefix: its entries in the maps, its timers, its
messages in flight, its random draws, and what the two controllers have shown
for it.  A handler for the prefix reads nothing else, so it does the same on
any two worlds that look alike at that prefix.
-/

namespace Statim

open Support LocalRouteController

/-- The prefix an observation is about. -/
def LocalObs.pfx : LocalObs → Name
  | .admitted u => u.pfx
  | .request _ m => m.pfx
  | .completed _ ack _ _ _ => ack.pfx
  | .withdrawn _ p _ => p

/-- An observation without the ports that a completion found stored: a lookup may
have pruned them before, and lookups see more than one prefix. -/
def LocalObs.withoutPorts : LocalObs → LocalObs
  | .completed t ack seq expiry _ => .completed t ack seq expiry []
  | o => o

namespace Link

/-! ## What belongs to a prefix -/

/-- The PacketIns, retries, completions and withdrawals of a prefix. -/
def logOf (p : Name) (log : List LocalObs) : List LocalObs :=
  (log.filter fun o => decide (o.pfx = p)).map LocalObs.withoutPorts

/-- The FlowMods of a prefix. -/
def flowModsOf (p : Name) (mods : List (Nat × ControlMessage)) : List (Nat × ControlMessage) :=
  mods.filter fun f => decide (f.2.pfx = p)

/-- The accepted PacketIns, applied FlowMods and SyncAcks of a prefix. -/
def historyOf (p : Name) (history : List FlowTableObs) : List FlowTableObs :=
  history.filter fun o => decide ((Loop.obsMessage o).pfx = p)

def timersOf (p : Name) (events : List (Scheduled LocalEvent)) : List (Scheduled LocalEvent) :=
  events.filter fun e => decide (e.event.pfx = p)

def messagesOf (p : Name) (events : List (Scheduled FlowTableEvent)) :
    List (Scheduled FlowTableEvent) :=
  events.filter fun e => decide (e.event.message.pfx = p)

/-- The two worlds hold the same, and have shown the same, for the prefix. -/
structure SameAt (p : Name) (w v : LinkWorld) : Prop where
  log : logOf p w.log = logOf p v.log
  flowMods : flowModsOf p w.env.flowMods = flowModsOf p v.env.flowMods
  history : historyOf p w.env.history = historyOf p v.env.history
  seq : w.ctl.seqMap[p]? = v.ctl.seqMap[p]?
  highestSeen : w.ctl.highestSeenSeq[p]? = v.ctl.highestSeenSeq[p]?
  expiry : w.ctl.routeExpiries[p]? = v.ctl.routeExpiries[p]?
  timer : w.ctl.lifetimeTimers[p]? = v.ctl.lifetimeTimers[p]?
  pending : w.ctl.pendingControllerRequests[p]? = v.ctl.pendingControllerRequests[p]?
  state : w.env.central.prefixStates[p]? = v.env.central.prefixStates[p]?
  hops : ∀ port, w.ctl.temporaryFib.liveHop? w.clock.now p port =
    v.ctl.temporaryFib.liveHop? v.clock.now p port
  draws : w.env.central.draws p = v.env.central.draws p
  timers : timersOf p w.ctl.events = timersOf p v.ctl.events
  messages : messagesOf p w.env.central.events = messagesOf p v.env.central.events

/-- The two worlds look alike at the prefix, at the same time. -/
structure Alike (p : Name) (w v : LinkWorld) : Prop extends SameAt p w v where
  clock : w.clock = v.clock

variable {cfg : LinkConfig} {p q : Name} {w w' v : LinkWorld}
  {c c' d : FlowTableWorld LinkCentralEnv} {m : ControlMessage}

theorem SameAt.refl (p : Name) (w : LinkWorld) : SameAt p w w := by
  constructor <;> intros <;> rfl

theorem SameAt.trans {u : LinkWorld} (h : SameAt p w v) (h' : SameAt p v u) : SameAt p w u where
  log := h.log.trans h'.log
  flowMods := h.flowMods.trans h'.flowMods
  history := h.history.trans h'.history
  seq := h.seq.trans h'.seq
  highestSeen := h.highestSeen.trans h'.highestSeen
  expiry := h.expiry.trans h'.expiry
  timer := h.timer.trans h'.timer
  pending := h.pending.trans h'.pending
  state := h.state.trans h'.state
  hops port := (h.hops port).trans (h'.hops port)
  draws := h.draws.trans h'.draws
  timers := h.timers.trans h'.timers
  messages := h.messages.trans h'.messages

theorem SameAt.symm (h : SameAt p w v) : SameAt p v w where
  log := h.log.symm
  flowMods := h.flowMods.symm
  history := h.history.symm
  seq := h.seq.symm
  highestSeen := h.highestSeen.symm
  expiry := h.expiry.symm
  timer := h.timer.symm
  pending := h.pending.symm
  state := h.state.symm
  hops port := (h.hops port).symm
  draws := h.draws.symm
  timers := h.timers.symm
  messages := h.messages.symm

theorem Alike.refl (p : Name) (w : LinkWorld) : Alike p w w :=
  { SameAt.refl p w with clock := rfl }

/-! ## Lists restricted to a prefix -/

theorem logOf_append (p : Name) (log : List LocalObs) (o : LocalObs) :
    logOf p (log ++ [o]) = logOf p log ++ if o.pfx = p then [o.withoutPorts] else [] := by
  unfold logOf
  rw [List.filter_append, List.map_append]
  by_cases ho : o.pfx = p
  · simp [ho]
  · simp [ho]

theorem admissions_eq_of_logOf {log log' : List LocalObs} (h : logOf p log = logOf p log') :
    admissions log p = admissions log' p := by
  have hsame : ∀ log : List LocalObs, admissions (logOf p log) p = admissions log p := by
    intro log
    simp only [admissions, logOf, List.filterMap_map, List.filterMap_filter]
    refine List.filterMap_congr fun o _ => ?_
    cases o with
    | admitted u =>
        by_cases hu : u.pfx = p
        · simp [LocalObs.pfx, LocalObs.withoutPorts, hu]
        · simp [LocalObs.pfx, hu]
    | request t m => simp [LocalObs.withoutPorts]
    | completed t ack s d ports => simp [LocalObs.withoutPorts]
    | withdrawn t q s => simp [LocalObs.withoutPorts]
  rw [← hsame log, h, hsame log']

theorem timersOf_cancel? (p : Name) (handle : Option Nat) (events : List (Scheduled LocalEvent)) :
    timersOf p (cancel? handle events) = cancel? handle (timersOf p events) := by
  cases handle with
  | none => rfl
  | some uid => exact List.filter_comm _ _ _

/-- A handle of another prefix cancels nothing here. -/
theorem timersOf_cancel?_of_ne {events : List (Scheduled LocalEvent)} {handle : Option Nat}
    (h : ∀ e ∈ events, e.event.pfx = p → handle ≠ some e.uid) :
    timersOf p (cancel? handle events) = timersOf p events := by
  rw [timersOf_cancel?]
  cases handle with
  | none => rfl
  | some uid =>
      refine List.filter_eq_self.mpr fun e he => ?_
      obtain ⟨hmem, hpfx⟩ := List.mem_filter.mp he
      have huid := h e hmem (of_decide_eq_true hpfx)
      rw [bne_iff_ne]
      exact fun heq => huid (congrArg some heq.symm)

theorem timersOf_append (p : Name) (events : List (Scheduled LocalEvent))
    (e : Scheduled LocalEvent) :
    timersOf p (events ++ [e]) = timersOf p events ++ if e.event.pfx = p then [e] else [] := by
  simp [timersOf, List.filter_singleton]

theorem messagesOf_append (p : Name) (events : List (Scheduled FlowTableEvent))
    (e : Scheduled FlowTableEvent) : messagesOf p (events ++ [e]) =
      messagesOf p events ++ if e.event.message.pfx = p then [e] else [] := by
  simp [messagesOf, List.filter_singleton]

theorem messagesOf_cancel (p : Name) (uid : Nat) (events : List (Scheduled FlowTableEvent)) :
    messagesOf p (cancel uid events) = cancel uid (messagesOf p events) :=
  List.filter_comm _ _ _

theorem historyOf_append (p : Name) (history : List FlowTableObs) (o : FlowTableObs) :
    historyOf p (history ++ [o]) =
      historyOf p history ++ if (Loop.obsMessage o).pfx = p then [o] else [] := by
  simp [historyOf, List.filter_singleton]

theorem flowModsOf_append (p : Name) (mods : List (Nat × ControlMessage))
    (f : Nat × ControlMessage) :
    flowModsOf p (mods ++ [f]) = flowModsOf p mods ++ if f.2.pfx = p then [f] else [] := by
  simp [flowModsOf, List.filter_singleton]

/-! ## The same prefix: responses -/

theorem liveHop?_erase (now : Time) (t : TemporaryForwardingTable) (p : Name) (port : Port) :
    (t.erase p).liveHop? now p port = none := by
  simp [TemporaryForwardingTable.liveHop?, TemporaryForwardingTable.hop?_erase]

/-- One more observation of the local controller. -/
theorem Alike.note (h : Alike p w v) (o : LocalObs) :
    Alike p { w with log := w.log ++ [o] } { v with log := v.log ++ [o] } :=
  { h with log := by rw [logOf_append, logOf_append, h.log] }

/-- Everything about the prefix is removed on both sides. -/
theorem Alike.retire (h : Alike p w v) (counters counters' : LocalCounters) :
    Alike p { w with ctl := { retire p w.ctl with counters := counters } }
      { v with ctl := { retire p v.ctl with counters := counters' } } :=
  { h with
    seq := by simp [LocalRouteController.retire]
    expiry := by simp [LocalRouteController.retire]
    timer := by simp [LocalRouteController.retire]
    pending := by simp [LocalRouteController.retire]
    hops port := (liveHop?_erase _ _ _ _).trans (liveHop?_erase _ _ _ _).symm
    timers := by
      simp only [LocalRouteController.retire]
      rw [timersOf_cancel?, timersOf_cancel?, timersOf_cancel?, timersOf_cancel?, h.timers,
        h.timer, h.pending] }

theorem Alike.acceptResponse (h : Alike p w v) (cfg : LocalConfig) (hm : m.pfx = p) :
    Alike p (acceptResponse cfg m w).2 (acceptResponse cfg m v).2 := by
  subst hm
  have hnow : w.clock.now = v.clock.now := congrArg Clock.now h.clock
  simp only [LocalRouteController.acceptResponse, h.seq, h.highestSeen, h.expiry, hnow]
  by_cases htype : m.type = .syncAck
  swap
  · simp only [htype, ne_eq, not_false_eq_true, if_true]
    exact h
  simp only [htype, ne_eq, not_true_eq_false, if_false]
  cases v.ctl.seqMap[m.pfx]? with
  | none =>
      simp only
      split_ifs
      · exact { h with }
      · exact { h with }
  | some seq =>
      simp only
      split
      · exact { h with }
      split
      · exact { h with }
      split
      · exact { h with }
      · have hretired := h.retire
          { w.ctl.counters with syncCompletions := w.ctl.counters.syncCompletions + 1 }
          { v.ctl.counters with syncCompletions := v.ctl.counters.syncCompletions + 1 }
        refine { hretired with log := ?_ }
        rw [logOf_append, logOf_append, h.log]
        rfl

/-! ## The same prefix: the flow-table controller -/

open FlowTableController (count draw shouldDrop sampleDelay handOver deliverSyncAck sendSyncAck
  scheduleSyncAck scheduleFlowMod acceptControl submitFlowUpdate recordApplied applyFlowMod
  sendFlowMod attemptFlowMod isStaleFlowMod isAppliedFlowMod handle)

/-- `Alike`, seen from the flow-table controller. -/
abbrev CentralAlike (p : Name) (c d : FlowTableWorld LinkCentralEnv) : Prop :=
  Alike p (toTemporary c) (toTemporary d)

theorem CentralAlike.now (h : CentralAlike p c d) : c.clock.now = d.clock.now :=
  congrArg Clock.now h.clock

theorem alike_count (h : CentralAlike p c d) (k : FlowTableCounter) :
    CentralAlike p (count k c) (count k d) :=
  { h with }

theorem alike_draw (h : CentralAlike p c d) : CentralAlike p (draw p c) (draw p d) := by
  have hdraws : c.ctl.draws p = d.ctl.draws p := h.draws
  refine { h with draws := ?_ }
  simp [toTemporary, draw, hdraws]

theorem shouldDrop_eq (h : CentralAlike p c d) (cfg : FlowTableConfig) :
    (shouldDrop cfg p c).1 = (shouldDrop cfg p d).1 :=
  congrArg (cfg.drop p) h.draws

theorem sampleDelay_eq (h : CentralAlike p c d) (cfg : FlowTableConfig) :
    (sampleDelay cfg p c).1 = (sampleDelay cfg p d).1 :=
  congrArg (cfg.delay p) h.draws

theorem alike_schedule (h : CentralAlike p c d) (delay : Nat) (event : FlowTableEvent) :
    CentralAlike p (FlowTableController.schedule delay event c)
      (FlowTableController.schedule delay event d) := by
  have hclock : c.clock = d.clock := h.clock
  have hmessages : messagesOf p c.ctl.events = messagesOf p d.ctl.events := h.messages
  refine { h with clock := congrArg Clock.next hclock, messages := ?_ }
  simp only [toTemporary, FlowTableController.schedule]
  rw [messagesOf_append, messagesOf_append, hmessages, hclock]

theorem alike_observe (h : CentralAlike p c d) (o : FlowTableObs) :
    CentralAlike p { c with log := c.log ++ [o] } { d with log := d.log ++ [o] } := by
  have hhistory : historyOf p c.log = historyOf p d.log := h.history
  refine { h with history := ?_ }
  simp only [toTemporary]
  rw [historyOf_append, historyOf_append, hhistory]

theorem alike_putState (h : CentralAlike p c d) (state : PrefixState) :
    CentralAlike p
      { c with ctl := { c.ctl with prefixStates := c.ctl.prefixStates.insert p state } }
      { d with ctl := { d.ctl with prefixStates := d.ctl.prefixStates.insert p state } } :=
  { h with state := by simp [toTemporary] }

theorem alike_handOver (h : CentralAlike p c d) (hm : m.pfx = p) :
    CentralAlike p (handOver (centralCallbacks cfg) m c) (handOver (centralCallbacks cfg) m d) := by
  have hnoted := alike_observe h (.acked d.clock.now m)
  simp only [handOver, centralCallbacks, onSyncAck, CentralAlike, toTemporary_toCentral, h.now]
  rw [Loop.handleControlResponse_eq cfg.temporary rfl,
    Loop.handleControlResponse_eq cfg.temporary rfl]
  exact hnoted.acceptResponse cfg.temporary hm

theorem alike_deliverSyncAck (h : CentralAlike p c d) (hm : m.pfx = p) :
    CentralAlike p (deliverSyncAck cfg.central (centralCallbacks cfg) m c)
      (deliverSyncAck cfg.central (centralCallbacks cfg) m d) := by
  subst hm
  have hstart := alike_count h .syncAckAttempts
  simp only [deliverSyncAck, shouldDrop_eq hstart, CentralAlike.now hstart]
  split
  · exact alike_count hstart _
  split
  · exact alike_count (alike_draw hstart) _
  · have hdraw := alike_draw hstart
    exact alike_count (alike_handOver (m := { m with type := .syncAck }) hdraw rfl) _

theorem alike_sendSyncAck (h : CentralAlike p c d) (hm : m.pfx = p) :
    CentralAlike p (sendSyncAck cfg.central (centralCallbacks cfg) m c)
      (sendSyncAck cfg.central (centralCallbacks cfg) m d) := by
  subst hm
  simp only [sendSyncAck, sampleDelay_eq h]
  split
  · exact alike_deliverSyncAck (alike_draw h) rfl
  · exact alike_schedule (alike_draw h) _ _

theorem alike_scheduleSyncAck (h : CentralAlike p c d) (hm : m.pfx = p) (replay : Bool) :
    CentralAlike p (scheduleSyncAck cfg.central (centralCallbacks cfg) m replay c)
      (scheduleSyncAck cfg.central (centralCallbacks cfg) m replay d) := by
  unfold scheduleSyncAck
  split
  · exact alike_sendSyncAck (alike_count h _) hm
  · exact alike_sendSyncAck h hm

theorem alike_scheduleFlowMod (h : CentralAlike p c d) (hm : m.pfx = p) :
    CentralAlike p (scheduleFlowMod cfg.central m c) (scheduleFlowMod cfg.central m d) := by
  subst hm
  have hnoted := alike_observe h (.accepted m)
  simp only [scheduleFlowMod, sampleDelay_eq hnoted]
  exact alike_schedule (alike_draw hnoted) _ _

theorem alike_acceptControl (h : CentralAlike p c d) (hm : m.pfx = p) :
    CentralAlike p (acceptControl cfg.central (centralCallbacks cfg) m c)
      (acceptControl cfg.central (centralCallbacks cfg) m d) := by
  subst hm
  have hstart := alike_count h .packetInsDelivered
  have hstate : (count .packetInsDelivered c).ctl.prefixStates[m.pfx]? =
      (count .packetInsDelivered d).ctl.prefixStates[m.pfx]? := hstart.state
  simp only [acceptControl, hstate, CentralAlike.now hstart]
  split
  · exact alike_count hstart _
  split
  swap
  · exact alike_scheduleFlowMod hstart rfl
  generalize (count .packetInsDelivered d).ctl.prefixStates[m.pfx]?.getD {} = state
  have htouch := alike_putState hstart state
  split
  · exact alike_count htouch _
  split
  · have hdup := alike_count htouch .duplicatePacketIns
    split
    · exact alike_count hdup _
    split
    · exact alike_scheduleSyncAck hdup rfl true
    · exact alike_scheduleFlowMod hdup rfl
  · exact alike_scheduleFlowMod (alike_putState htouch _) rfl

theorem alike_submitFlowUpdate (h : CentralAlike p c d) (hm : m.pfx = p) :
    CentralAlike p (submitFlowUpdate cfg.central (centralCallbacks cfg) m c)
      (submitFlowUpdate cfg.central (centralCallbacks cfg) m d) := by
  subst hm
  have hstart := alike_count h .packetIns
  have hdraw := alike_draw hstart
  have hdelay : (sampleDelay cfg.central m.pfx
      (shouldDrop cfg.central m.pfx (count .packetIns c)).2).1 =
      (sampleDelay cfg.central m.pfx (shouldDrop cfg.central m.pfx (count .packetIns d)).2).1 :=
    sampleDelay_eq hdraw cfg.central
  simp only [submitFlowUpdate, shouldDrop_eq hstart, hdelay]
  split
  · exact alike_count hdraw _
  split
  · exact alike_acceptControl (alike_draw hdraw) rfl
  · exact alike_schedule (alike_draw hdraw) _ _

theorem alike_recordApplied (h : CentralAlike p c d) (cfg : FlowTableConfig) (hm : m.pfx = p) :
    CentralAlike p { c with ctl := recordApplied cfg m c.ctl }
      { d with ctl := recordApplied cfg m d.ctl } := by
  subst hm
  have hstate : c.ctl.prefixStates[m.pfx]? = d.ctl.prefixStates[m.pfx]? := h.state
  simp only [recordApplied, hstate]
  split
  · exact alike_putState h _
  · exact h

theorem alike_onFlowMod (h : CentralAlike p c d) (cfg : LinkConfig) (m : ControlMessage) :
    CentralAlike p (onFlowMod cfg m c).2 (onFlowMod cfg m d).2 := by
  have hmods : flowModsOf p c.env.flowMods = flowModsOf p d.env.flowMods := h.flowMods
  refine { h with flowMods := ?_ }
  simp only [toTemporary, onFlowMod]
  rw [flowModsOf_append, flowModsOf_append, hmods, h.now]

theorem alike_applyFlowMod (h : CentralAlike p c d) (hm : m.pfx = p) :
    CentralAlike p (applyFlowMod cfg.central (centralCallbacks cfg) m c)
      (applyFlowMod cfg.central (centralCallbacks cfg) m d) := by
  have hsunk := alike_onFlowMod h cfg { m with type := .flowMod }
  -- the sink answers the same on both sides
  have hanswer : (onFlowMod cfg { m with type := .flowMod } c).1 =
      (onFlowMod cfg { m with type := .flowMod } d).1 := rfl
  simp only [applyFlowMod, centralCallbacks, hanswer]
  split
  · exact alike_count hsunk _
  · have hnoted := alike_observe (alike_count hsunk .flowModsApplied)
      (.applied { m with type := .flowMod })
    exact alike_scheduleSyncAck (alike_recordApplied hnoted cfg.central hm) hm false

theorem alike_attemptFlowMod (h : CentralAlike p c d) (hm : m.pfx = p) :
    CentralAlike p (attemptFlowMod cfg.central (centralCallbacks cfg) m c)
      (attemptFlowMod cfg.central (centralCallbacks cfg) m d) := by
  subst hm
  have hstart := alike_count h .flowModAttempts
  have hstate : (count .flowModAttempts c).ctl.prefixStates[m.pfx]? =
      (count .flowModAttempts d).ctl.prefixStates[m.pfx]? := hstart.state
  have hstale : isStaleFlowMod m (count .flowModAttempts c).ctl =
      isStaleFlowMod m (count .flowModAttempts d).ctl := by
    simp only [isStaleFlowMod, hstate]
  have happlied : isAppliedFlowMod m (count .flowModAttempts c).ctl =
      isAppliedFlowMod m (count .flowModAttempts d).ctl := by
    simp only [isAppliedFlowMod, hstate]
  simp only [attemptFlowMod, sendFlowMod, hstale, happlied, shouldDrop_eq hstart,
    CentralAlike.now hstart]
  split
  · exact alike_count hstart _
  split
  · exact alike_count hstart _
  split
  · exact alike_scheduleSyncAck (alike_count hstart _) rfl true
  split
  · exact alike_count (alike_draw hstart) _
  · exact alike_applyFlowMod (alike_draw hstart) rfl

/-- A message does the same on two worlds that look alike at its prefix. -/
theorem alike_handle (h : CentralAlike p c d) {event : FlowTableEvent}
    (hevent : event.message.pfx = p) :
    CentralAlike p (handle cfg.central (centralCallbacks cfg) event c)
      (handle cfg.central (centralCallbacks cfg) event d) := by
  cases event with
  | acceptControl m => exact alike_acceptControl h hevent
  | attemptFlowMod m => exact alike_attemptFlowMod h hevent
  | deliverSyncAck m => exact alike_deliverSyncAck h hevent

/-! ## The same prefix: the local controller -/

theorem Alike.now (h : Alike p w v) : w.clock.now = v.clock.now :=
  congrArg Clock.now h.clock

theorem alike_dispatch (h : Alike p w v) (hm : m.pfx = p) :
    Alike p (dispatch (temporaryCallbacks cfg) m w) (dispatch (temporaryCallbacks cfg) m v) := by
  have hnoted := h.note (.request v.clock.now m)
  simp only [dispatch, temporaryCallbacks, onRequest, h.now]
  exact alike_submitFlowUpdate (c := toCentral { w with log := _ })
    (d := toCentral { v with log := _ }) hnoted hm

/-- The new hop of an update, next to what is live of the old ones. -/
theorem liveHop?_insertUntil (now : Time) (p : Name) (port : Port) (deadline : Time)
    (t : TemporaryForwardingTable) (port' : Port) :
    (t.insertUntil now p port deadline).2.liveHop? now p port' =
      if port' = port ∧ t.liveHop? now p port = none then
        (some ⟨port, deadline⟩ : Option PortNextHop).filter fun hop => decide (now < hop.deadline)
      else t.liveHop? now p port' := by
  rw [TemporaryForwardingTable.liveHop?, TemporaryForwardingTable.hop?_insertUntil, if_pos rfl]
  split
  · rfl
  · exact TemporaryForwardingTable.filter_liveHop? _ _ _ _

theorem alike_replaceEntry (h : Alike p w v) {u : Admission} (hu : u.pfx = p) :
    Alike p { w with ctl := replaceEntry w.clock.now u w.ctl }
      { v with ctl := replaceEntry v.clock.now u v.ctl } := by
  subst hu
  have hcontains : w.ctl.seqMap.contains u.pfx = v.ctl.seqMap.contains u.pfx := by
    rw [Std.TreeMap.contains_eq_isSome_getElem?, Std.TreeMap.contains_eq_isSome_getElem?, h.seq]
  refine { h with seq := ?_, expiry := ?_, hops := fun port => ?_ }
  · simp [replaceEntry]
  · simp [replaceEntry]
  · simp only [replaceEntry, hcontains]
    rw [liveHop?_insertUntil, liveHop?_insertUntil]
    split
    · simp only [liveHop?_erase, h.now]
    · simp only [h.hops]
      rw [h.now]

theorem alike_restartLifetimeTimer (h : Alike p w v) {u : Admission} (hu : u.pfx = p) :
    Alike p (restartLifetimeTimer u w) (restartLifetimeTimer u v) := by
  subst hu
  have hcancelled : timersOf u.pfx (cancel? w.ctl.lifetimeTimers[u.pfx]? w.ctl.events) =
      timersOf u.pfx (cancel? v.ctl.lifetimeTimers[u.pfx]? v.ctl.events) := by
    rw [timersOf_cancel?, timersOf_cancel?, h.timers, h.timer]
  unfold restartLifetimeTimer
  split
  · refine { h with clock := congrArg Clock.next h.clock, timer := ?_, timers := ?_ }
    · simp [h.clock]
    · rw [timersOf_append, timersOf_append, hcancelled, h.clock]
  · exact { h with timer := by simp, timers := hcancelled }

theorem alike_replacePending (h : Alike p w v) (cfg : LocalConfig) {u : Admission}
    (hu : u.pfx = p) : Alike p (replacePending cfg u w) (replacePending cfg u v) := by
  subst hu
  unfold replacePending
  split
  · refine { h with clock := congrArg Clock.next h.clock, pending := ?_, timers := ?_ }
    · simp [h.clock]
    · rw [timersOf_append, timersOf_append, timersOf_cancel?, timersOf_cancel?, h.timers,
        h.pending, h.clock]
  · exact h

theorem alike_stage (h : Alike p w v) {u : Admission} (hu : u.pfx = p) :
    Alike p (stage cfg.temporary (temporaryCallbacks cfg) u w)
      (stage cfg.temporary (temporaryCallbacks cfg) u v) := by
  have hentered := alike_restartLifetimeTimer ((alike_replaceEntry h hu).note (.admitted u)) hu
  refine alike_replacePending ?_ cfg.temporary hu
  exact { hentered with }

theorem alike_passGuard (h : Alike p w v) (cfg : LocalConfig) (seq : Nat) :
    (passGuard cfg p seq w.ctl = none ∧ passGuard cfg p seq v.ctl = none) ∨
    ∃ ctl ctl', passGuard cfg p seq w.ctl = some ctl ∧ passGuard cfg p seq v.ctl = some ctl' ∧
      Alike p { w with ctl := ctl } { v with ctl := ctl' } := by
  have hmarked : Alike p
      { w with ctl := { w.ctl with highestSeenSeq := w.ctl.highestSeenSeq.insert p seq } }
      { v with ctl := { v.ctl with highestSeenSeq := v.ctl.highestSeenSeq.insert p seq } } :=
    { h with highestSeen := by simp }
  unfold passGuard
  rw [h.highestSeen]
  split
  swap
  · exact Or.inr ⟨_, _, rfl, rfl, h⟩
  cases v.ctl.highestSeenSeq[p]? with
  | none => exact Or.inr ⟨_, _, rfl, rfl, hmarked⟩
  | some high =>
      by_cases hle : seq ≤ high
      · simp [hle]
      · simp only [hle, if_false]
        exact Or.inr ⟨_, _, rfl, rfl, hmarked⟩

/-- Whether a Trace update throws depends on its lifetime only. -/
theorem applyTraceUpdate_eq (cfg : LocalConfig) (cbs : LocalCallbacks LinkEnv) (p : Name)
    (nameHashes : Bytes) (prefixLen port seq : Nat) (ttl : Int) :
    (∃ text, ∀ w, applyTraceUpdate cfg cbs p nameHashes prefixLen port seq ttl w = .error text) ∨
    ∀ w, applyTraceUpdate cfg cbs p nameHashes prefixLen port seq ttl w =
      match passGuard cfg p seq w.ctl with
      | none => .ok (false, { w with ctl := rejectTrace w.ctl })
      | some ctl =>
        if (match ctl.seqMap[p]? with | some s => decide (seq ≤ s) | none => false) then
          .ok (false, { w with ctl := rejectTrace ctl })
        else .ok (true, publish cfg cbs (candidate cfg p nameHashes prefixLen port seq ttl w)
          { w with ctl := ctl }) := by
  unfold applyTraceUpdate
  by_cases hnegative : ttl < 0
  · exact Or.inl ⟨_, fun w => if_pos hnegative⟩
  by_cases hdiffers : 0 < wrap64 (ttl * 1000) ∧ 0 < cfg.entryLifetime ∧
      wrap64 (ttl * 1000) ≠ cfg.entryLifetime
  · exact Or.inl ⟨_, fun w => (if_neg hnegative).trans (if_pos hdiffers)⟩
  · right
    intro w
    simp only [hnegative, hdiffers, if_false]
    rfl

theorem alike_trace (h : Alike p w v) (nameHashes : Bytes) (prefixLen port seq : Nat)
    (ttl : Int) :
    Alike p (perform cfg w (.trace p nameHashes prefixLen port seq ttl))
      (perform cfg v (.trace p nameHashes prefixLen port seq ttl)) := by
  simp only [perform]
  rcases applyTraceUpdate_eq cfg.temporary (temporaryCallbacks cfg) p nameHashes prefixLen port
    seq ttl with ⟨text, heq⟩ | heq
  · rw [heq, heq]
    exact h
  rw [heq, heq]
  have hcandidate : candidate cfg.temporary p nameHashes prefixLen port seq ttl w =
      candidate cfg.temporary p nameHashes prefixLen port seq ttl v := by
    unfold candidate
    rw [h.now, admissions_eq_of_logOf h.log]
  rcases alike_passGuard h cfg.temporary seq with
    ⟨hnone, hnone'⟩ | ⟨ctl, ctl', hpass, hpass', hmarked⟩
  · rw [hnone, hnone']
    exact { h with }
  rw [hpass, hpass', hcandidate]
  have hseq : ctl.seqMap[p]? = ctl'.seqMap[p]? := hmarked.seq
  simp only [hseq]
  cases hstale : (match ctl'.seqMap[p]? with | some s => decide (seq ≤ s) | none => false) with
  | true => exact { hmarked with }
  | false => exact alike_dispatch (alike_stage hmarked rfl) rfl

/-- Later on, the live hops are those of now that are still live. -/
theorem liveHop?_of_le {now later : Time} (hle : now ≤ later) (t : TemporaryForwardingTable)
    (p : Name) (port : Port) : t.liveHop? later p port =
      (t.liveHop? now p port).filter fun hop => decide (later < hop.deadline) := by
  unfold TemporaryForwardingTable.liveHop?
  rw [Option.filter_filter]
  congr 1
  funext hop
  have himp : later < hop.deadline → now < hop.deadline := fun h => Int.lt_of_le_of_lt hle h
  by_cases hlive : later < hop.deadline
  · simp [hlive, himp hlive]
  · simp [hlive]

/-- Time passes on both sides. -/
theorem Alike.elapse (h : Alike p w v) (clock : Clock) (hnow : w.clock.now ≤ clock.now) :
    Alike p { w with clock := clock } { v with clock := clock } := by
  refine { h with clock := rfl, hops := fun port => ?_ }
  have hle : (w.clock.now : Time) ≤ clock.now := Int.ofNat_le.mpr hnow
  have hle' : (v.clock.now : Time) ≤ clock.now := by rwa [← h.now]
  rw [liveHop?_of_le hle, liveHop?_of_le hle', h.hops port]

theorem alike_take (h : Alike p w v) {e : Scheduled LocalEvent} (hnow : w.clock.now ≤ e.ts) :
    Alike p (take e w) (take e v) := by
  have hclock : { w.clock with now := e.ts } = { v.clock with now := e.ts } := by rw [h.clock]
  have helapsed := h.elapse { w.clock with now := e.ts } hnow
  refine { helapsed with clock := hclock, timers := ?_ }
  show timersOf p (cancel? (some e.uid) w.ctl.events) =
    timersOf p (cancel? (some e.uid) v.ctl.events)
  rw [timersOf_cancel?, timersOf_cancel?, h.timers]

theorem alike_expireEntryBySeq (h : Alike p w v) (seq : Nat) :
    Alike p { w with ctl := expireEntryBySeq p seq w.ctl }
      { v with ctl := expireEntryBySeq p seq v.ctl } := by
  simp only [expireEntryBySeq, h.seq]
  split
  swap
  · exact { h with timer := by simp }
  have herased : Alike p
      { w with ctl := { w.ctl with
        temporaryFib := w.ctl.temporaryFib.erase p
        seqMap := w.ctl.seqMap.erase p
        routeExpiries := w.ctl.routeExpiries.erase p
        lifetimeTimers := w.ctl.lifetimeTimers.erase p } }
      { v with ctl := { v.ctl with
        temporaryFib := v.ctl.temporaryFib.erase p
        seqMap := v.ctl.seqMap.erase p
        routeExpiries := v.ctl.routeExpiries.erase p
        lifetimeTimers := v.ctl.lifetimeTimers.erase p } } :=
    { h with
      seq := by simp
      expiry := by simp
      timer := by simp
      hops port := (liveHop?_erase _ _ _ _).trans (liveHop?_erase _ _ _ _).symm }
  simp only [h.pending]
  cases v.ctl.pendingControllerRequests[p]? with
  | none => exact herased
  | some pending =>
      simp only
      split
      · refine { herased with pending := by simp, timers := ?_ }
        show timersOf p (cancel? (some pending.timer) w.ctl.events) =
          timersOf p (cancel? (some pending.timer) v.ctl.events)
        rw [timersOf_cancel?, timersOf_cancel?, h.timers]
      · exact herased

theorem alike_rescheduleRetry (h : Alike p w v) (cfg : LocalConfig) (seq : Nat) :
    Alike p (rescheduleRetry cfg p seq w) (rescheduleRetry cfg p seq v) := by
  simp only [rescheduleRetry, h.pending]
  cases v.ctl.pendingControllerRequests[p]? with
  | none => exact h
  | some pending =>
      simp only
      split
      · refine { h with clock := congrArg Clock.next h.clock, pending := ?_, timers := ?_ }
        · simp [h.clock]
        · rw [timersOf_append, timersOf_append, h.timers, h.clock]
      · exact h

theorem alike_onControllerRetryTimeout (h : Alike p w v) (seq : Nat)
    (hmsg : ∀ pending, w.ctl.pendingControllerRequests[p]? = some pending → pending.msg.pfx = p) :
    Alike p (onControllerRetryTimeout cfg.temporary (temporaryCallbacks cfg) p seq w)
      (onControllerRetryTimeout cfg.temporary (temporaryCallbacks cfg) p seq v) := by
  rw [h.pending] at hmsg
  simp only [onControllerRetryTimeout, h.pending, h.seq]
  cases hpending : v.ctl.pendingControllerRequests[p]? with
  | none => exact h
  | some pending =>
      simp only
      split
      · exact h
      split
      · exact { h with pending := by simp }
      split
      · refine alike_rescheduleRetry (alike_dispatch ?_ (hmsg pending hpending)) cfg.temporary seq
        exact { h with pending := by simp }
      · refine { h with
          log := ?_
          seq := by simp
          expiry := by simp
          timer := by simp
          pending := by simp
          hops := fun port => (liveHop?_erase _ _ _ _).trans (liveHop?_erase _ _ _ _).symm
          timers := ?_ }
        · rw [logOf_append, logOf_append, h.log, h.now]
        · rw [timersOf_cancel?, timersOf_cancel?, h.timers, h.timer]

end Link

end Statim
