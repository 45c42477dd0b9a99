import Statim.Engine.ExceptionSafety
import Statim.Pipeline.FibHistory
import Statim.State.ForwardingReference

/-!
# Route selection and its counters

An Interest that waits for its delay is sent to the ports of the longest live prefix
of the temporary FIB, or else to the port of the longest match of the flow-table FIB,
and never back to where it came from.  The tables may hold any port: both are also
edited from outside, as the helper and the tests do, and the bitmap between the two
lookups carries the ports 1 to 32.
-/

namespace Statim

open Support SwitchPipeline

namespace Loop

open LocalRouteController TemporaryForwardingTable

variable {ε : Type} {cfg : LoopConfig} {w w' : LoopWorld ε}
  {c c' : FlowTableWorld (CentralEnv ε)} {m : ControlMessage}

/-! ## What route selection relies on -/

/-- Both tables are well formed, and so are the hashes of every message that may still
write the flow tables. -/
structure Routable (w : LoopWorld ε) : Prop where
  fib : TableInv w.ctl.temporaryFib
  switch : IsSwitch w.env.switch
  inFlight : ∀ e ∈ w.env.central.events, Leading e.event.message.nameHashes
  pending : ∀ (p : Name) (r : PendingControllerRequest),
    w.ctl.pendingControllerRequests[p]? = some r → Leading r.msg.nameHashes

theorem tableInv_searchFrom {t : TemporaryForwardingTable} (h : TableInv t) (now : Time)
    (name : Name) (count : Nat) : TableInv (searchFrom now name count t).2 :=
  searchFrom_preserves (fun p _ h' => h'.pruneAndFind now p) name count h

/-- No pending request is added. -/
theorem Routable.erasePending (h : Routable w) (p : Name) (hfib : TableInv w'.ctl.temporaryFib)
    (hpending : w'.ctl.pendingControllerRequests = w.ctl.pendingControllerRequests ∨
      w'.ctl.pendingControllerRequests = w.ctl.pendingControllerRequests.erase p)
    (henv : w'.env = w.env) : Routable w' := by
  refine ⟨hfib, by rw [henv]; exact h.switch, by rw [henv]; exact h.inFlight, ?_⟩
  intro q r hr
  rcases hpending with hsame | herased
  · exact h.pending q r (by rwa [hsame] at hr)
  · rw [herased, Std.TreeMap.getElem?_erase] at hr
    split at hr
    · cases hr
    · exact h.pending q r hr

theorem Routable.acceptResponse (h : Routable w) (cfg : LoopConfig) (m : ControlMessage) :
    Routable (acceptResponse cfg.temporary m w).2 := by
  rcases acceptResponse_cases cfg.temporary m w with ⟨counters, heq⟩ | ⟨seq, -, -, -, -, -, heq⟩
  · rw [heq]
    exact ⟨h.fib, h.switch, h.inFlight, h.pending⟩
  · rw [heq]
    exact h.erasePending m.pfx (h.fib.erase m.pfx) (Or.inr rfl) rfl

/-- An action of the flow-table controller for a message with well-formed hashes. -/
theorem Routable.action (h : Routable (toTemporary c)) (hm : Leading m.nameHashes)
    (haction : FlowTableController.Action (centralCallbacks cfg) m c c') :
    Routable (toTemporary c') := by
  cases haction with
  | book => exact ⟨h.fib, h.switch, h.inFlight, h.pending⟩
  | accept => exact ⟨h.fib, h.switch, h.inFlight, h.pending⟩
  | schedule delay hevent =>
      refine ⟨h.fib, h.switch, fun e he => ?_, h.pending⟩
      rcases List.mem_append.mp he with he | he
      · exact h.inFlight e he
      · rw [List.mem_singleton.mp he, Clock.schedule_event, hevent]
        exact hm
  | refuse hsink hanswer =>
      cases hsink
      unfold onFlowTableFlowMod
      split
      · exact h
      · exact ⟨h.fib, h.switch.installFibEntry cfg.std hm _ _ _, h.inFlight, h.pending⟩
  | apply hsink hanswer =>
      cases hsink
      unfold onFlowTableFlowMod
      split
      · exact ⟨h.fib, h.switch, h.inFlight, h.pending⟩
      · exact ⟨h.fib, h.switch.installFibEntry cfg.std hm _ _ _, h.inFlight, h.pending⟩
  | ack hsync hlive =>
      cases hsync
      simp only [onSyncAck, toTemporary_toCentral]
      rw [handleControlResponse_eq cfg.temporary rfl]
      have hnoted : Routable (toTemporary { c with
          log := c.log ++ [.acked c.clock.now { m with type := .syncAck }] }) :=
        ⟨h.fib, h.switch, h.inFlight, h.pending⟩
      exact hnoted.acceptResponse cfg _

theorem Routable.actions (h : Routable (toTemporary c)) (hm : Leading m.nameHashes)
    (hactions : FlowTableController.Actions (centralCallbacks cfg) m c c') :
    Routable (toTemporary c') := by
  induction hactions with
  | refl => exact h
  | tail _ haction ih => exact ih.action hm haction

theorem Routable.dispatch (h : Routable w) (hm : Leading m.nameHashes) :
    Routable (dispatch (temporaryCallbacks cfg) m w) := by
  have hnoted : Routable { w with log := w.log ++ [.request w.clock.now m] } :=
    ⟨h.fib, h.switch, h.inFlight, h.pending⟩
  exact Routable.actions (c := toCentral { w with log := w.log ++ [.request w.clock.now m] })
    hnoted hm (FlowTableController.actions_submitFlowUpdate m _)

theorem Routable.stage (h : Routable w) {u : Admission} (hu : Leading u.nameHashes) :
    Routable (stage cfg.temporary (temporaryCallbacks cfg) u w) := by
  have henv := (stage_frame cfg.temporary (temporaryCallbacks cfg) u w).1
  refine ⟨?_, by rw [henv]; exact h.switch, by rw [henv]; exact h.inFlight, fun q r hr => ?_⟩
  · rw [(stages_stage _ _ u w).fib]
    simp only [replaceEntry]
    split
    · exact (h.fib.erase u.pfx).insertUntil _ _ _ _
    · exact h.fib.insertUntil _ _ _ _
  · by_cases hretry : Retrying cfg.temporary (temporaryCallbacks (ε := ε) cfg)
    · rw [getElem?_pending_stage hretry] at hr
      split at hr
      · cases hr
        exact hu
      · exact h.pending q r hr
    · rw [pending_stage_of_not_retrying hretry] at hr
      exact h.pending q r hr

theorem Routable.applyTraceUpdate (h : Routable w) {p : Name} {port seq : Nat} {ttl : Int}
    {r : Bool × LoopWorld ε} (hcall : applyTraceUpdate cfg p port seq ttl w = .ok r) :
    Routable r.2 := by
  obtain ⟨r₀, hlocal, -, accepted, hr⟩ := applyTraceUpdate_eq_ok hcall
  have hpassed : ∀ ctl, passGuard cfg.temporary p seq w.ctl = some ctl →
      Routable { w with ctl := ctl } := by
    intro ctl hguard
    rcases passGuard_eq_some hguard with ⟨-, rfl⟩ | ⟨-, -, rfl⟩
    · exact h
    · exact ⟨h.fib, h.switch, h.inFlight, h.pending⟩
  have hcalled : Routable r₀.2 := by
    rcases applyTraceUpdate_cases hlocal with
      ⟨-, rfl⟩ | ⟨ctl, s, hguard, -, -, rfl⟩ | ⟨ctl, hguard, -, rfl⟩
    · exact ⟨h.fib, h.switch, h.inFlight, h.pending⟩
    · have hctl := hpassed ctl hguard
      exact ⟨hctl.fib, hctl.switch, hctl.inFlight, hctl.pending⟩
    · have hhashes : Leading (PacketHeader.hashesOf cfg.stdHash p) :=
        leading_hashesOf cfg.stdHash p
      exact ((hpassed ctl hguard).stage hhashes).dispatch hhashes
  rw [hr]
  exact ⟨hcalled.fib, hcalled.switch, hcalled.inFlight, hcalled.pending⟩

theorem Routable.rescheduleRetry (h : Routable w) (p : Name) (s : Nat) :
    Routable (rescheduleRetry cfg.temporary p s w) := by
  unfold LocalRouteController.rescheduleRetry
  split
  swap
  · exact h
  next pending hpending =>
  split
  swap
  · exact h
  refine ⟨h.fib, h.switch, h.inFlight, fun q r hr => ?_⟩
  rw [Std.TreeMap.getElem?_insert] at hr
  split at hr
  · cases hr
    exact h.pending p pending hpending
  · exact h.pending q r hr

theorem Routable.onControllerRetryTimeout (h : Routable w) (p : Name) (s : Nat) :
    Routable (onControllerRetryTimeout cfg.temporary (temporaryCallbacks cfg) p s w) := by
  unfold LocalRouteController.onControllerRetryTimeout
  split
  · exact h
  next pending hpending =>
  have hleading := h.pending p pending hpending
  split
  · exact h
  split
  · exact h.erasePending p h.fib (Or.inr rfl) rfl
  split
  · refine Routable.rescheduleRetry (Routable.dispatch ?_ hleading) p s
    refine ⟨h.fib, h.switch, h.inFlight, fun q r hr => ?_⟩
    rw [Std.TreeMap.getElem?_insert] at hr
    split at hr
    · cases hr
      exact hleading
    · exact h.pending q r hr
  · exact h.erasePending p (h.fib.erase p) (Or.inr rfl) rfl

theorem Routable.expireEntryBySeq (h : Routable w) (p : Name) (s : Nat) :
    Routable { w with ctl := expireEntryBySeq p s w.ctl } := by
  unfold LocalRouteController.expireEntryBySeq
  split
  swap
  · exact h.erasePending p h.fib (Or.inl rfl) rfl
  dsimp only
  split
  · split
    · exact h.erasePending p (h.fib.erase p) (Or.inr rfl) rfl
    · exact h.erasePending p (h.fib.erase p) (Or.inl rfl) rfl
  · exact h.erasePending p (h.fib.erase p) (Or.inl rfl) rfl

theorem Routable.fire (h : Routable w) (e : Scheduled LocalEvent) :
    Routable (fire cfg.temporary (temporaryCallbacks cfg) e w) := by
  have htaken : Routable (take e w) := ⟨h.fib, h.switch, h.inFlight, h.pending⟩
  cases hevent : e.event with
  | expireEntryBySeq p s =>
      simp only [LocalRouteController.fire, hevent]
      exact htaken.expireEntryBySeq p s
  | onControllerRetryTimeout p s =>
      simp only [LocalRouteController.fire, hevent]
      exact htaken.onControllerRetryTimeout p s

theorem Routable.fireCentral (h : Routable w) {e : Scheduled FlowTableEvent}
    (he : e ∈ w.env.central.events) :
    Routable (toTemporary
      (FlowTableController.fire cfg.central (centralCallbacks cfg) e (toCentral w))) := by
  have htaken : Routable (toTemporary (FlowTableController.take e (toCentral w))) :=
    ⟨h.fib, h.switch, fun e' he' => h.inFlight e' (mem_cancel.mp he').1, h.pending⟩
  exact htaken.actions (h.inFlight e he) (FlowTableController.actions_handle e.event _)

end Loop

namespace ForwardingEngine

open Loop TemporaryForwardingTable

variable {cfg : EngineConfig} {w w' w₀ : EngineWorld}

/-! ## Runs with edited tables -/

theorem SameRouting.routable (h : SameRouting w w') (hw : Routable w) : Routable w' where
  fib := by
    rw [h.ctl]
    exact hw.fib
  switch := by
    rw [h.switch]
    exact hw.switch
  inFlight := by
    rw [h.central]
    exact hw.inFlight
  pending := by
    rw [h.ctl]
    exact hw.pending

theorem sameRouting_pullAll (cfg : EngineConfig) (port : Port) (pending : List Interest)
    (w : EngineWorld) : SameRouting w (Handled.world (pullAll cfg port pending w)) := by
  induction pending generalizing w with
  | nil => exact ⟨rfl, rfl, rfl⟩
  | cons interest rest ih =>
      rw [pullAll]
      split
      · exact ⟨rfl, rfl, rfl⟩
      next retx buffers hrefresh =>
        have hscheduled : SameRouting w (schedulePull retx buffers port w) := ⟨rfl, rfl, rfl⟩
        exact hscheduled.trans (ih _)

theorem routable_learnPort (cfg : EngineConfig) (h : Routable w) (p : Name) (seq : Nat)
    (lifetime : Int) (port : Port) :
    Routable (Handled.world (learnPort cfg p seq lifetime port w)) := by
  unfold learnPort
  split
  · exact h
  next updated w₁ hcall =>
    have hupdated : Routable w₁ := h.applyTraceUpdate hcall
    split
    · have hcounted := (sameRouting_count .pullInvocations w₁).routable hupdated
      exact (sameRouting_pullAll cfg port _ _).routable hcounted
    · exact hupdated

theorem routable_learnPorts (h : Routable w) (p : Name) (seq : Nat) (lifetime : Int)
    (ports : List Port) : Routable (Handled.world (learnPorts cfg p seq lifetime ports w)) := by
  induction ports generalizing w with
  | nil => exact h
  | cons port rest ih =>
      have hfirst := routable_learnPort cfg h p seq lifetime port
      rw [learnPorts]
      split
      next e hraise =>
        rw [hraise] at hfirst
        exact hfirst
      next w₁ hok =>
        rw [hok] at hfirst
        exact ih hfirst

theorem routable_handleTraceData (cfg : EngineConfig) (h : Routable w) (data : Data)
    (ports : Std.TreeSet Port) (lifetime : Int) :
    Routable (Handled.world (handleTraceData cfg data ports lifetime w)) := by
  unfold handleTraceData
  split
  · exact h
  split
  · exact h
  dsimp only
  split
  · exact h
  · exact routable_learnPorts ((sameRouting_count .traceUpdatesHandled w).routable h) _ _ _ _

theorem sameRouting_forwardData (data : Data) (ports : Std.TreeSet Port) (header : PacketHeader)
    (w : EngineWorld) : SameRouting w (forwardData cfg data ports header w) := by
  simp only [forwardData, foldl_sendDataToPort]
  split
  · exact ⟨rfl, rfl, rfl⟩
  · exact ⟨rfl, rfl, rfl⟩

theorem routable_processDataAfterDelay (h : Routable w) (data : Data) (header : PacketHeader)
    (hok : processDataAfterDelay cfg data header w = .ok w') : Routable w' := by
  have htaken := (sameRouting_setPit (w.env.rest.pit.takeDataMatchPorts data.name).2 w).routable h
  simp only [processDataAfterDelay] at hok
  split at hok
  · cases hok
    exact htaken
  split at hok
  · split at hok
    · cases hok
      exact (sameRouting_count .malformedPackets _).routable htaken
    · split at hok
      · cases hok
      next w₁ hlearn =>
        have hlearned := routable_handleTraceData cfg htaken data
          (w.env.rest.pit.takeDataMatchPorts data.name).1 (savedLifetime data.name w.env.rest.pit)
        rw [hlearn] at hlearned
        cases hok
        exact (sameRouting_forwardData _ _ _ _).routable hlearned
  · cases hok
    refine (sameRouting_forwardData _ _ _ _).routable ?_
    exact ⟨htaken.fib, htaken.switch, htaken.inFlight, htaken.pending⟩

theorem routable_processInterestAfterDelay (h : Routable w) {inPort : Port}
    {interest : Interest} {header : PacketHeader}
    (hok : processInterestAfterDelay cfg inPort interest header w = .ok w') : Routable w' := by
  obtain ⟨counters, encoded, ports, -, rfl⟩ := processInterestAfterDelay_eq_ok hok
  exact ⟨tableInv_searchFrom h.fib _ _ _, h.switch, h.inFlight, h.pending⟩

/-- No step of the engine breaks what route selection relies on. -/
theorem EngineStep.routable {a : EngineAction} (h : Routable w)
    (hstep : EngineStep cfg w a (.ok w')) : Routable w' := by
  generalize hr : (.ok w' : Handled) = r at hstep
  cases hstep with
  | receive inPort packet =>
      have hsame := sameRouting_onReceiveRawPacket cfg inPort packet w
      rw [← hr] at hsame
      exact hsame.routable h
  | @fire e he hdue =>
      have htaken : Routable (ForwardingEngine.take e w) :=
        ⟨h.fib, h.switch, h.inFlight, h.pending⟩
      cases hevent : e.event with
      | processInterestAfterDelay inPort interest header =>
          rw [ForwardingEngine.fire, hevent] at hr
          exact routable_processInterestAfterDelay htaken hr.symm
      | processDataAfterDelay inPort data header =>
          rw [ForwardingEngine.fire, hevent] at hr
          exact routable_processDataAfterDelay htaken data header hr.symm
      | doDelayedPullSend interest port =>
          rw [ForwardingEngine.fire, hevent] at hr
          obtain ⟨encoded, -, rfl⟩ := doDelayedPullSend_eq_ok hr.symm
          exact ⟨h.fib, h.switch, h.inFlight, h.pending⟩
  | temporary he hdue =>
      cases hr
      exact h.fire _
  | central he hdue =>
      cases hr
      exact h.fireCentral he
  | idle =>
      cases hr
      exact ⟨h.fib, h.switch, h.inFlight, h.pending⟩

/-- A call of the temporary FIB from outside. -/
def editTable (op : TableOp) (w : EngineWorld) : EngineWorld :=
  { w with ctl := { w.ctl with temporaryFib :=
    (TableCall.run ⟨w.clock.now, w.clock.now, op⟩ w.ctl.temporaryFib).2 } }

/-- A call that changes the flow-table FIB from outside. -/
def editFlow (std : EntrySort) (op : FibOp) (w : EngineWorld) : EngineWorld :=
  { w with env := { w.env with switch := op.apply std w.env.switch } }

/-- The states that runs reach when the two tables are also edited from outside: any call
of the temporary FIB, and any installation or removal in the flow-table FIB for a tuple of
leading hashes. -/
inductive EditedRun (cfg : EngineConfig) (w₀ : EngineWorld) : EngineWorld → Prop
  | start (h : IsInitial cfg w₀) : EditedRun cfg w₀ w₀
  | step {w w' : EngineWorld} {a : EngineAction} (hrun : EditedRun cfg w₀ w)
      (hstep : EngineStep cfg w a (.ok w')) : EditedRun cfg w₀ w'
  | table {w : EngineWorld} (hrun : EditedRun cfg w₀ w) (op : TableOp) :
      EditedRun cfg w₀ (editTable op w)
  | flow {w : EngineWorld} (hrun : EditedRun cfg w₀ w) (std : EntrySort) (op : FibOp)
      (hlead : Leading op.nameHashes) : EditedRun cfg w₀ (editFlow std op w)

theorem tableInv_run {t : TemporaryForwardingTable} (h : TableInv t) (c : TableCall) :
    TableInv (c.run t).2 := by
  obtain ⟨first, now, op⟩ := c
  cases op with
  | insert p port lifetime => exact h.insertUntil now p port _
  | insertUntil p port deadline => exact h.insertUntil now p port deadline
  | erase p => exact h.erase p
  | findExact p => exact h.pruneAndFind now p
  | findLongestPrefix name => exact tableInv_searchFrom h now name name.length

theorem EditedRun.routable (h : EditedRun cfg w₀ w) : Routable w := by
  induction h with
  | start h =>
      have hevents : w₀.env.central.events = [] := h.loop.central.2.1
      refine ⟨?_, h.loop.switch.isSwitch, ?_, ?_⟩
      · rw [h.loop.temporary.1]
        exact TableInv.empty
      · rw [hevents]
        simp
      · rw [h.loop.temporary.1]
        simp
  | step hrun hstep ih => exact hstep.routable ih
  | table hrun op ih => exact ⟨tableInv_run ih.fib _, ih.switch, ih.inFlight, ih.pending⟩
  | flow hrun std op hlead ih =>
      refine ⟨ih.fib, ?_, ih.inFlight, ih.pending⟩
      cases op with
      | install hs port expiry => exact ih.switch.installFibEntry std hlead port expiry none
      | remove hs => exact ih.switch.removeFibEntry hs

theorem EditedRun.encoded (h : EditedRun cfg w₀ w) :
    ∀ e ∈ w.env.rest.events, IsEncoded e.event := by
  induction h with
  | start h => simp [h.events]
  | step hrun hstep ih => exact hstep.encoded ih
  | table hrun op ih => exact ih
  | flow hrun std op hlead ih => exact ih

/-- A run without edits is one of these. -/
theorem EngineRun.edited {steps : List Step} (h : EngineRun cfg w₀ steps (.ok w)) :
    EditedRun cfg w₀ w := by
  generalize hr : (.ok w : Handled) = r at h
  induction h generalizing w with
  | start h =>
      cases hr
      exact .start h
  | step hrun hstep ih =>
      subst hr
      exact (ih rfl).step hstep

/-! ## Transmissions -/

/-- The Interest is handed to `sendInterestToPort` once for each port of a list and for no
other port, and the counter of the FIB that chose them grows by their number. -/
structure Transmits (interest : Interest) (ports : List Port) (usedTemporaryFib : Bool)
    (w w' : EngineWorld) : Prop where
  log : w'.env.rest.log = w.env.rest.log ++ ports.map fun port =>
    .sentInterest port interest.name interest.selectors
      (interest.nonceValue w.env.rest.buffers) interest.lifetime
  temporary : w'.env.rest.counters .temporaryFibInterestTransmissions =
    w.env.rest.counters .temporaryFibInterestTransmissions +
      if usedTemporaryFib then ports.length else 0
  flowTable : w'.env.rest.counters .flowTableFibInterestTransmissions =
    w.env.rest.counters .flowTableFibInterestTransmissions +
      if usedTemporaryFib then 0 else ports.length

theorem transmits_forwardInterests {used : Bool} {interest : Interest}
    (hwire : interest.hasWire = true) {ports : List Port}
    (h : forwardInterests used interest ports w = .ok w') :
    Transmits interest ports used w w' := by
  rw [forwardInterests_of_encoded (Interest.wireEncode_of_hasWire hwire)] at h
  cases h
  induction ports generalizing w with
  | nil => exact ⟨by simp, by simp, by simp⟩
  | cons port rest ih =>
      obtain ⟨hlog, htemporary, hflow⟩ := ih
        (w := noteInterest port interest (countTransmission used w))
      refine ⟨?_, ?_, ?_⟩
      · rw [List.foldl_cons, hlog]
        simp [noteInterest, note, countTransmission, count, modify]
      · rw [List.foldl_cons, htemporary]
        cases used with
        | false => simp [noteInterest, note, countTransmission, count, modify]
        | true =>
            simp [noteInterest, note, countTransmission, count, modify]
            omega
      · rw [List.foldl_cons, hflow]
        cases used with
        | true => simp [noteInterest, note, countTransmission, count, modify]
        | false =>
            simp [noteInterest, note, countTransmission, count, modify]
            omega

/-- The second pass decides the ports, and the ingress port is left out. -/
theorem transmits_of_sendsTo (inPort : Port) {interest : Interest}
    (hwire : interest.hasWire = true) {header : PacketHeader} {pass2 : PipelineResult}
    {ports : List Port}
    (hroute : (selectRoute cfg.loop cfg.enableTemporaryFib interest.name header w).1 = some pass2)
    (hsends : SendsTo pass2 ports)
    (h : processInterestAfterDelay cfg inPort interest header w = .ok w') :
    Transmits interest (ports.filter (· ≠ inPort)) (cfg.enableTemporaryFib &&
        (LocalRouteController.findLongestPrefix interest.name w).1.isSome) w w' := by
  simp only [processInterestAfterDelay, hroute] at h
  split at h
  next hdrop =>
    have hnone : ports = [] := by
      rw [Bool.or_eq_true, hsends.dropped, decide_eq_true_eq, isEmpty_iff_toList,
        hsends.outputPorts, or_self] at hdrop
      exact hdrop
    subst hnone
    cases h
    refine ⟨?_, ?_, ?_⟩
    · simp [count, modify, selectRoute, LocalRouteController.findLongestPrefix]
    · simp [count, modify, selectRoute, LocalRouteController.findLongestPrefix]
    · simp [count, modify, selectRoute, LocalRouteController.findLongestPrefix]
  next =>
    rw [hsends.outputPorts] at h
    obtain ⟨hlog, htemporary, hflow⟩ := transmits_forwardInterests hwire h
    exact ⟨hlog, htemporary, hflow⟩

/-! ## The temporary FIB decides -/

/-- The longest prefix of a name that has a live hop has `k` components. -/
structure LongestLive (now : Time) (t : TemporaryForwardingTable) (name : Name) (k : Nat) :
    Prop where
  le : k ≤ name.length
  live : ∃ port, (liveHop? now t (name.take k) port).isSome = true
  longest : ∀ j, k < j → j ≤ name.length → ∀ port, liveHop? now t (name.take j) port = none

/-- Every hop is stored under its port. -/
theorem mem_hopPorts {t : TemporaryForwardingTable} (h : TableInv t) {now : Time} {p : Name}
    {entry : ForwardingEntry}
    (hentry : ∀ port : Port, entry.nextHops[port]? = liveHop? now t p port) {port : Port} :
    port ∈ hopPorts entry ↔ (liveHop? now t p port).isSome = true := by
  have hkeyed : ∀ (key : Port) (hop : PortNextHop), liveHop? now t p key = some hop →
      hop.port = key := fun key hop hlive => h.keyed p key hop (hop?_of_liveHop? hlive)
  rw [hopPorts, List.mem_map, Option.isSome_iff_exists]
  constructor
  · rintro ⟨⟨key, hop⟩, hmem, rfl⟩
    rw [Std.TreeMap.mem_toList_iff_getElem?_eq_some, hentry] at hmem
    rw [hkeyed key hop hmem]
    exact ⟨hop, hmem⟩
  · rintro ⟨hop, hlive⟩
    refine ⟨(port, hop), ?_, hkeyed port hop hlive⟩
    rw [Std.TreeMap.mem_toList_iff_getElem?_eq_some, hentry]
    exact hlive

/-- The bitmap carries the hops of the longest live prefix as far as it has room for
them. -/
theorem selectRoute_of_longestLive (cfg : EngineConfig) (h : Routable w) {name : Name} {k : Nat}
    (header : PacketHeader) (hlongest : LongestLive w.clock.now w.ctl.temporaryFib name k)
    {port : Port} (hport : 1 ≤ port ∧ port ≤ 32)
    (hlive : (liveHop? w.clock.now w.ctl.temporaryFib (name.take k) port).isSome = true) :
    (LocalRouteController.findLongestPrefix name w).1.isSome = true ∧
      ∃ pass2 ports, (selectRoute cfg.loop true name header w).1 = some pass2 ∧
        SendsTo pass2 ports ∧ ports.Nodup ∧ ∀ q, q ∈ ports ↔
          (liveHop? w.clock.now w.ctl.temporaryFib (name.take k) q).isSome = true ∧
            1 ≤ q ∧ q ≤ 32 := by
  obtain ⟨entry, hfound, hhops⟩ := longestLive_of_live hlongest.le hlongest.live hlongest.longest
  have hfind : (LocalRouteController.findLongestPrefix name w).1 = some entry := by
    rw [← hfound]
    exact findLongestPrefix_fst _ name _
  have hmem : ∀ q, q ∈ maskPorts (encodeOutPortsMask (hopPorts entry)) ↔
      (liveHop? w.clock.now w.ctl.temporaryFib (name.take k) q).isSome = true ∧
        1 ≤ q ∧ q ≤ 32 := by
    intro q
    rw [mem_maskPorts_encodeOutPortsMask, mem_hopPorts h.fib hhops]
    constructor
    · rintro ⟨hlo, hhi, hq⟩
      exact ⟨hq, hlo, hhi⟩
    · rintro ⟨hq, hlo, hhi⟩
      exact ⟨hlo, hhi, hq⟩
  have hheld : port ∈ maskPorts (encodeOutPortsMask (hopPorts entry)) :=
    (hmem port).mpr ⟨hlive, hport⟩
  have hmask : encodeOutPortsMask (hopPorts entry) ≠ 0 := by
    intro hzero
    rw [maskPorts_eq_nil_iff.mpr hzero] at hheld
    exact absurd hheld List.not_mem_nil
  have hne : hopPorts entry ≠ [] :=
    List.ne_nil_of_mem ((mem_hopPorts h.fib hhops).mpr hlive)
  refine ⟨by rw [hfind]; rfl, _, _, selectRoute_of_some hfind hne,
    h.switch.hasTables.sendsTo_interest_mask _ _ rfl hmask, ?_, hmem⟩
  exact (pairwise_maskPorts _).imp Nat.ne_of_lt

/-! ## The flow-table FIB decides -/

/-- The number of hashes that a tuple fixes. -/
def matchLength (nameHashes : Bytes) : Nat :=
  ((nameHashes.take nameHashCount).filter (· != noHash)).length

/-- A route of the flow-table FIB that is not expired and whose hashes are those of a
name. -/
structure FlowMatch (stdHash : Bytes → Nat) (now : Time) (sw : SwitchPipeline) (name : Name)
    (nameHashes : Bytes) (port : Port) : Prop where
  entry : ∃ expiry source, fibEntry nameHashes port expiry source ∈ sw.fib.entries ∧
    ¬(0 < expiry ∧ expiry ≤ now)
  agree : HeaderMatches nameHashes (PacketHeader.ofName stdHash name)

/-- The port of the longest match, and no port if nothing matches. -/
structure FlowPorts (stdHash : Bytes → Nat) (now : Time) (sw : SwitchPipeline) (name : Name)
    (ports : List Port) : Prop where
  matched : ∀ hs port, FlowMatch stdHash now sw name hs port →
    (∀ hs' port', FlowMatch stdHash now sw name hs' port' → matchLength hs' ≤ matchLength hs) →
      ports = [port]
  unmatched : (∀ hs port, ¬FlowMatch stdHash now sw name hs port) → ports = []

theorem flowPorts_fibPorts (stdHash : Bytes → Nat) (now : Time) {sw : SwitchPipeline}
    (hsw : IsSwitch sw) (name : Name) (header : PacketHeader) :
    FlowPorts stdHash now sw name (fibPorts now (fibHeader stdHash name header) sw) := by
  have hshape := hsw.fibInv.shape
  have hmatch : ∀ hs port expiry source, fibEntry hs port expiry source ∈ sw.fib.entries →
      (fibEntry hs port expiry source).isMatch now (fibHeader stdHash name header).serialize =
        true → FlowMatch stdHash now sw name hs port := by
    intro hs port expiry source hmem hisMatch
    obtain ⟨hlive, hagree⟩ := (isMatch_fibEntry ..).mp hisMatch
    exact ⟨⟨expiry, source, hmem, hlive⟩, hagree⟩
  refine ⟨fun hs port hflow hlongest => ?_, fun hnone => ?_⟩
  · obtain ⟨expiry, source, hmem, hlive⟩ := hflow.entry
    obtain ⟨hs', port', expiry', source', hlead', heq⟩ := (hshape _ hmem).resolve_left (by
      simp [fibEntry, dropEntry])
    have hsame : SameKey hs hs' :=
      (fibMatchFields_eq_iff hs hs').mp (congrArg FlowEntry.matchFields heq)
    have hlead : Leading hs := by
      intro i j hij hj hsome
      rw [hsame j hj] at hsome
      rw [hsame i (Nat.lt_of_le_of_lt hij hj)]
      exact hlead' i j hij hj hsome
    have hfirst : ∀ e ∈ sw.fib.entries,
        e.isMatch now (fibHeader stdHash name header).serialize = true →
          e.priority ≤ fibPriority hs := by
      intro e he hisMatch
      rcases hshape e he with rfl | ⟨hs₁, port₁, expiry₁, source₁, -, rfl⟩
      · exact Nat.zero_le _
      · have hle := hlongest hs₁ port₁ (hmatch hs₁ port₁ expiry₁ source₁ he hisMatch)
        simp only [fibEntry, fibPriority]
        exact Nat.add_le_add_left (Nat.mul_le_mul_right 1000 hle) 2000
    have hagree : HeaderMatches hs (fibHeader stdHash name header) := hflow.agree
    have hlookup := hsw.fibInv.lookup_eq hmem hlead hlive hagree hfirst
    simp [fibPorts, hlookup, fibEntry]
  · unfold fibPorts
    split
    · rfl
    next e hlookup =>
      have he : e ∈ sw.fib.entries := List.mem_of_find?_eq_some hlookup
      rcases hshape e he with rfl | ⟨hs, port, expiry, source, -, rfl⟩
      · rfl
      · have hisMatch := List.find?_some hlookup
        exact absurd (hmatch hs port expiry source he hisMatch) (hnone hs port)

/-- Without a live temporary route, or with temporary forwarding switched off, the Interest
has no bitmap. -/
theorem selectRoute_of_flowTable {name : Name} (header : PacketHeader)
    (h : cfg.enableTemporaryFib = false ∨
      ∀ j ≤ name.length, ∀ port,
        liveHop? w.clock.now w.ctl.temporaryFib (name.take j) port = none) :
    (cfg.enableTemporaryFib && (LocalRouteController.findLongestPrefix name w).1.isSome) =
        false ∧
      (selectRoute cfg.loop cfg.enableTemporaryFib name header w).1 =
        some (w.env.switch.processPacket w.clock.now
          (fibHeader cfg.loop.stdHash name header)) := by
  rcases h with hoff | hnone
  · rw [hoff]
    refine ⟨Bool.false_and _, ?_⟩
    simp only [selectRoute, routeHeader]
    cases (LocalRouteController.findLongestPrefix name w).1 with
    | none => rfl
    | some entry => rfl
  · have hfind : (LocalRouteController.findLongestPrefix name w).1 = none := by
      rw [← longestLive_of_expired hnone]
      exact findLongestPrefix_fst _ name _
    rw [hfind]
    exact ⟨Bool.and_false _, selectRoute_of_none hfind⟩

/-! ## The Interest after its delay -/

theorem transmits_temporary (cfg : EngineConfig) (h : Routable w)
    (hon : cfg.enableTemporaryFib = true) {inPort : Port} {interest : Interest}
    (hwire : interest.hasWire = true) {header : PacketHeader}
    (hok : processInterestAfterDelay cfg inPort interest header w = .ok w') {k : Nat}
    (hlongest : LongestLive w.clock.now w.ctl.temporaryFib interest.name k)
    {port : Port} (hport : 1 ≤ port ∧ port ≤ 32)
    (hlive : (liveHop? w.clock.now w.ctl.temporaryFib (interest.name.take k) port).isSome =
      true) :
    ∃ ports, ports.Nodup ∧
      (∀ q, q ∈ ports ↔
        (liveHop? w.clock.now w.ctl.temporaryFib (interest.name.take k) q).isSome = true ∧
          (1 ≤ q ∧ q ≤ 32) ∧ q ≠ inPort) ∧
      Transmits interest ports true w w' := by
  obtain ⟨hfound, pass2, ports, hroute, hsends, hnodup, hmem⟩ :=
    selectRoute_of_longestLive cfg h header hlongest hport hlive
  rw [← hon] at hroute
  have hsent := transmits_of_sendsTo inPort hwire hroute hsends hok
  rw [hon, hfound] at hsent
  refine ⟨_, hnodup.filter _, fun q => ?_, hsent⟩
  rw [List.mem_filter, hmem, decide_eq_true_eq, and_assoc]

theorem transmits_flowTable (h : Routable w) {inPort : Port} {interest : Interest}
    (hwire : interest.hasWire = true) {header : PacketHeader}
    (hok : processInterestAfterDelay cfg inPort interest header w = .ok w')
    (hnone : cfg.enableTemporaryFib = false ∨ ∀ j ≤ interest.name.length, ∀ port,
      liveHop? w.clock.now w.ctl.temporaryFib (interest.name.take j) port = none) :
    ∃ ports, FlowPorts cfg.loop.stdHash w.clock.now w.env.switch interest.name ports ∧
      Transmits interest (ports.filter (· ≠ inPort)) false w w' := by
  obtain ⟨hunused, hroute⟩ := selectRoute_of_flowTable header hnone
  have hsends := h.switch.hasTables.sendsTo_interest_fib
    (fibHeader cfg.loop.stdHash interest.name header) w.clock.now rfl rfl
  have hsent := transmits_of_sendsTo inPort hwire hroute hsends hok
  rw [hunused] at hsent
  exact ⟨_, flowPorts_fibPorts _ _ h.switch _ _, hsent⟩

/-- An Interest whose delay is over is sent once to each port that the bitmap can hold of
the longest live prefix of the temporary FIB, if it can hold one of them, and to the port
of the longest match of the flow-table FIB if temporary forwarding is off or no prefix is
live; never to its ingress port.  Only the counter of the FIB that decided grows. -/
theorem route_selection (hrun : EditedRun cfg w₀ w) {inPort : Port} {interest : Interest}
    {header : PacketHeader} {r : Handled}
    (hstep : EngineStep cfg w (.fire (.processInterestAfterDelay inPort interest header)) r) :
    ∃ w', r = .ok w' ∧
      (∀ k port, cfg.enableTemporaryFib = true →
        LongestLive w'.clock.now w.ctl.temporaryFib interest.name k →
        1 ≤ port ∧ port ≤ 32 →
        (liveHop? w'.clock.now w.ctl.temporaryFib (interest.name.take k) port).isSome = true →
        ∃ ports, ports.Nodup ∧
          (∀ q, q ∈ ports ↔
            (liveHop? w'.clock.now w.ctl.temporaryFib (interest.name.take k) q).isSome = true ∧
              (1 ≤ q ∧ q ≤ 32) ∧ q ≠ inPort) ∧
          Transmits interest ports true w w') ∧
      ((cfg.enableTemporaryFib = false ∨ ∀ j ≤ interest.name.length, ∀ port,
          liveHop? w'.clock.now w.ctl.temporaryFib (interest.name.take j) port = none) →
        ∃ ports, FlowPorts cfg.loop.stdHash w'.clock.now w.env.switch interest.name ports ∧
          Transmits interest (ports.filter (· ≠ inPort)) false w w') := by
  obtain ⟨e, he, hevent, hdue, rfl⟩ := hstep.exists_of_fire
  have hroutable := hrun.routable
  have htaken : Routable (ForwardingEngine.take e w) :=
    ⟨hroutable.fib, hroutable.switch, hroutable.inFlight, hroutable.pending⟩
  have hwire : interest.hasWire = true := by
    have hencoded := hrun.encoded e he
    rwa [hevent] at hencoded
  obtain ⟨w', hok⟩ := processInterestAfterDelay_of_hasWire cfg inPort hwire header
    (ForwardingEngine.take e w)
  have hnow := (processInterestAfterDelay_effect hok).1.now
  refine ⟨w', hok, fun k port hon hlongest hport hlive => ?_, fun hnone => ?_⟩
  · rw [hnow] at hlongest hlive ⊢
    obtain ⟨ports, hnodup, hmem, hsent⟩ :=
      transmits_temporary cfg htaken hon hwire hok hlongest hport hlive
    exact ⟨ports, hnodup, hmem, hsent.log, hsent.temporary, hsent.flowTable⟩
  · rw [hnow] at hnone ⊢
    obtain ⟨ports, hports, hsent⟩ := transmits_flowTable htaken hwire hok hnone
    exact ⟨ports, hports, hsent.log, hsent.temporary, hsent.flowTable⟩

/-- A hop with a deadline ahead is live after its insertion, and so is every hop that was
live before. -/
theorem isSome_liveHop?_insertUntil {now deadline : Time} (hlive : now < deadline) (p : Name)
    (port q : Port) (t : TemporaryForwardingTable) :
    (liveHop? now (insertUntil now p port deadline t).2 p q).isSome = true ↔
      q = port ∨ (liveHop? now t p q).isSome = true := by
  rw [liveHop?, hop?_insertUntil, if_pos rfl]
  split
  next hnew => simp [Option.filter_some, hlive, hnew.1]
  next hold =>
    rw [filter_liveHop?]
    refine ⟨Or.inr, fun h => h.elim ?_ id⟩
    rintro rfl
    rw [Option.isSome_iff_ne_none]
    exact fun hnone => hold ⟨rfl, hnone⟩

/-- The Interest of `requestedWorld` has two temporary routes, by the ports 2 and 40. -/
def twoHopWorld : EngineWorld :=
  editTable (.insertUntil contentName 40 timePointMax)
    (editTable (.insertUntil contentName 2 timePointMax) requestedWorld)

theorem run_twoHopWorld : EditedRun sampleEngineConfig sampleEngine twoHopWorld :=
  (run_requestedWorld.edited.table _).table _

theorem due_twoHopWorld :
    ∃ e ∈ twoHopWorld.env.rest.events, IsDue twoHopWorld e.key ∧ e.ts = 0 ∧
      ∃ interest header, e.event = .processInterestAfterDelay 1 interest header ∧
        interest.name = contentName := by
  have hfirst : ∃ e, twoHopWorld.env.rest.events.head? = some e ∧
      IsDue twoHopWorld e.key ∧ e.ts = 0 ∧
      ∃ interest header, e.event = .processInterestAfterDelay 1 interest header ∧
        interest.name = contentName :=
    ⟨_, rfl, by decide, rfl, _, _, rfl, rfl⟩
  obtain ⟨e, he, hrest⟩ := hfirst
  exact ⟨e, List.mem_of_mem_head? he, hrest⟩

theorem live_twoHopWorld :
    (liveHop? 0 twoHopWorld.ctl.temporaryFib contentName 2).isSome = true ∧
      (liveHop? 0 twoHopWorld.ctl.temporaryFib contentName 40).isSome = true := by
  have hahead : (0 : Time) < timePointMax := by decide
  have hlive : ∀ q, (liveHop? 0 twoHopWorld.ctl.temporaryFib contentName q).isSome = true ↔
      q = 40 ∨ q = 2 ∨
        (liveHop? 0 requestedWorld.ctl.temporaryFib contentName q).isSome = true := by
    intro q
    rw [← isSome_liveHop?_insertUntil hahead contentName 2 q]
    exact isSome_liveHop?_insertUntil hahead contentName 40 q _
  exact ⟨(hlive 2).mpr (Or.inr (Or.inl rfl)), (hlive 40).mpr (Or.inl rfl)⟩

theorem longestLive_twoHopWorld :
    LongestLive 0 twoHopWorld.ctl.temporaryFib contentName 2 where
  le := by decide
  live := ⟨2, live_twoHopWorld.1⟩
  longest j hlt hle := absurd hle (Nat.not_le.mpr hlt)

theorem route_selection_twoHopWorld :
    ∃ e ∈ twoHopWorld.env.rest.events, ∃ interest header w',
      e.event = .processInterestAfterDelay 1 interest header ∧
      ForwardingEngine.fire sampleEngineConfig e twoHopWorld = .ok w' ∧
      ∃ ports, ports.Nodup ∧ 2 ∈ ports ∧ Transmits interest ports true twoHopWorld w' := by
  obtain ⟨e, he, hdue, hts, interest, header, hevent, hname⟩ := due_twoHopWorld
  have hstep : EngineStep sampleEngineConfig twoHopWorld
      (.fire (.processInterestAfterDelay 1 interest header))
      (ForwardingEngine.fire sampleEngineConfig e twoHopWorld) := by
    rw [← hevent]
    exact .fire he hdue
  obtain ⟨w', hok, htemporary, -⟩ := route_selection run_twoHopWorld hstep
  have hnow : w'.clock.now = 0 := by
    simp only [ForwardingEngine.fire, hevent, handle] at hok
    rw [(processInterestAfterDelay_effect hok).1.now]
    exact hts
  rw [hnow, hname] at htemporary
  obtain ⟨ports, hnodup, hmem, hsent⟩ := htemporary 2 2 rfl longestLive_twoHopWorld (by decide)
    live_twoHopWorld.1
  exact ⟨e, he, interest, header, w', hevent, hok, ports, hnodup,
    (hmem 2).mpr ⟨live_twoHopWorld.1, by decide, by decide⟩, hsent⟩

/-- A live hop by port 40 gets no Interest: the bitmap has no room for it. -/
theorem not_sentTo_hop_twoHopWorld :
    EditedRun sampleEngineConfig sampleEngine twoHopWorld ∧
      sampleEngineConfig.enableTemporaryFib = true ∧
      ∃ interest header w', EngineStep sampleEngineConfig twoHopWorld
          (.fire (.processInterestAfterDelay 1 interest header)) (.ok w') ∧
        LongestLive w'.clock.now twoHopWorld.ctl.temporaryFib interest.name 2 ∧
        (liveHop? w'.clock.now twoHopWorld.ctl.temporaryFib (interest.name.take 2) 40).isSome =
          true ∧
        ∀ name selectors nonce lifetime,
          .sentInterest 40 name selectors nonce lifetime ∉ w'.env.rest.log := by
  obtain ⟨e, he, hdue, hts, interest, header, hevent, hname⟩ := due_twoHopWorld
  have hroutable := run_twoHopWorld.routable
  have htaken : Routable (ForwardingEngine.take e twoHopWorld) :=
    ⟨hroutable.fib, hroutable.switch, hroutable.inFlight, hroutable.pending⟩
  have hlongest : LongestLive (ForwardingEngine.take e twoHopWorld).clock.now
      (ForwardingEngine.take e twoHopWorld).ctl.temporaryFib interest.name 2 := by
    rw [hname]
    simp only [ForwardingEngine.take, hts]
    exact longestLive_twoHopWorld
  have hlive : ∀ port, (liveHop? 0 twoHopWorld.ctl.temporaryFib contentName port).isSome = true →
      (liveHop? (ForwardingEngine.take e twoHopWorld).clock.now
        (ForwardingEngine.take e twoHopWorld).ctl.temporaryFib (interest.name.take 2)
        port).isSome = true := by
    intro port hport
    rw [hname]
    simp only [ForwardingEngine.take, hts]
    exact hport
  have hwire : interest.hasWire = true := by
    have hencoded := run_twoHopWorld.encoded e he
    rwa [hevent] at hencoded
  obtain ⟨w', hok⟩ := processInterestAfterDelay_of_hasWire sampleEngineConfig 1 hwire header
    (ForwardingEngine.take e twoHopWorld)
  obtain ⟨ports, -, hmem, hsent⟩ := transmits_temporary sampleEngineConfig htaken rfl hwire hok
    hlongest (by decide) (hlive 2 live_twoHopWorld.1)
  have hnow := (processInterestAfterDelay_effect hok).1.now
  refine ⟨run_twoHopWorld, rfl, interest, header, w', ?_, ?_, ?_, ?_⟩
  · rw [← hevent]
    have hfire : ForwardingEngine.fire sampleEngineConfig e twoHopWorld = .ok w' := by
      simp only [ForwardingEngine.fire, hevent, handle]
      exact hok
    rw [← hfire]
    exact .fire he hdue
  · rw [hnow]
    exact hlongest
  · rw [hnow]
    exact hlive 40 live_twoHopWorld.2
  · intro name selectors nonce lifetime hsent40
    have hbefore : (ForwardingEngine.take e twoHopWorld).env.rest.log =
        [.accepted 1 contentName] := rfl
    rw [hsent.log, hbefore, List.mem_append, List.mem_map] at hsent40
    rcases hsent40 with hold | ⟨port, hport, heq⟩
    · simp at hold
    · cases heq
      exact absurd ((hmem 40).mp hport).2.1.2 (by decide)

end ForwardingEngine

end Statim
