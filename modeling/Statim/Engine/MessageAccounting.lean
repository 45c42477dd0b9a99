import Statim.Control.FlowTableLedger
import Statim.Engine.LoopInvariant

/-!
# Accounting of control messages

Every request of the local controller is the first one of an admitted update or
a retry, and in the closed loop it is a PacketIn of the flow-table controller.
Together with the books of the flow-table controller this accounts for every
message of the control loop.
-/

namespace Statim

open Support

namespace LocalRouteController

variable {ω : Type} {cfg : LocalConfig} {cbs : LocalCallbacks ω} {w w' : LocalWorld ω}
  {u : Admission}

/-! ## Requests of the local controller -/

/-- Every request is the first one of an admission or a retry. -/
def RequestsSettled (w : LocalWorld ω) : Prop :=
  w.ctl.counters.controlPackets = w.ctl.counters.tempUpdates + w.ctl.counters.controllerRetries

/-- The part of the counters that the books of requests read. -/
def requestCounters (w : LocalWorld ω) : Nat × Nat × Nat :=
  (w.ctl.counters.controlPackets, w.ctl.counters.tempUpdates, w.ctl.counters.controllerRetries)

theorem RequestsSettled.congr (h : RequestsSettled w)
    (heq : requestCounters w' = requestCounters w) : RequestsSettled w' := by
  simp only [requestCounters, Prod.mk.injEq] at heq
  obtain ⟨hcontrol, htemp, hretries⟩ := heq
  rw [RequestsSettled, hcontrol, htemp, hretries]
  exact h

/-- A response is no request. -/
theorem requestCounters_acceptResponse (cfg : LocalConfig) (m : ControlMessage)
    (w : LocalWorld ω) : requestCounters (acceptResponse cfg m w).2 = requestCounters w := by
  simp only [acceptResponse]
  split
  · rfl
  split
  · split <;> split <;> rfl
  · split_ifs
    · rfl
    · rfl
    · rfl
    · rfl

theorem requestCounters_restartLifetimeTimer (u : Admission) (w : LocalWorld ω) :
    requestCounters (restartLifetimeTimer u w) = requestCounters w := by
  unfold restartLifetimeTimer
  split
  · rfl
  · rfl

theorem requestCounters_replacePending (cfg : LocalConfig) (u : Admission) (w : LocalWorld ω) :
    requestCounters (replacePending cfg u w) = requestCounters w := by
  unfold replacePending
  split
  · rfl
  · rfl

/-- Staging an update counts one admission and one request. -/
theorem requestCounters_stage (cfg : LocalConfig) (hrequest : cbs.request.isSome = true)
    (u : Admission) (w : LocalWorld ω) : requestCounters (stage cfg cbs u w) =
      (w.ctl.counters.controlPackets + 1, w.ctl.counters.tempUpdates + 1,
        w.ctl.counters.controllerRetries) := by
  have htimer := requestCounters_restartLifetimeTimer u { w with
    ctl := replaceEntry w.clock.now u w.ctl
    log := w.log ++ [.admitted u] }
  simp only [requestCounters, replaceEntry, Prod.mk.injEq] at htimer
  obtain ⟨hcontrol, htemp, hretries⟩ := htimer
  simp only [stage, hrequest, if_true, requestCounters_replacePending]
  simp only [requestCounters, replaceEntry, hcontrol, htemp, hretries]

theorem requestCounters_expireEntryBySeq (p : Name) (s : Nat) (w : LocalWorld ω) :
    requestCounters { w with ctl := expireEntryBySeq p s w.ctl } = requestCounters w := by
  unfold expireEntryBySeq
  split
  · simp only
    split
    · split
      · rfl
      · rfl
    · rfl
  · rfl

theorem requestCounters_rescheduleRetry (cfg : LocalConfig) (p : Name) (s : Nat)
    (w : LocalWorld ω) : requestCounters (rescheduleRetry cfg p s w) = requestCounters w := by
  unfold rescheduleRetry
  split
  · split
    · rfl
    · rfl
  · rfl

/-- What a callback does before it returns.  The request callback stays set in
whatever it calls. -/
inductive Calls : LocalWorld ω → LocalWorld ω → Prop
  | refl (w : LocalWorld ω) : Calls w w
  | trace {w w' : LocalWorld ω} {cfg : LocalConfig} {cbs : LocalCallbacks ω}
      (hset : cbs.request.isSome = true)
      (hrequest : ∀ f, cbs.request = some f → ∀ m w, Calls w (f m w))
      {pfx : Name} {nameHashes : Bytes} {prefixLen port seq : Nat} {ttl : Int}
      {r : Bool × LocalWorld ω}
      (h : applyTraceUpdate cfg cbs pfx nameHashes prefixLen port seq ttl w' = .ok r) :
      Calls w w' → Calls w r.2
  | respond {w w' : LocalWorld ω} {cbs : LocalCallbacks ω}
      (hcomplete : ∀ f, cbs.complete = some f → ∀ p w, Calls w (f p w))
      (cfg : LocalConfig) (m : ControlMessage) :
      Calls w w' → Calls w (handleControlResponse cfg cbs m w').2
  | exact {w w' : LocalWorld ω} (p : Name) : Calls w w' → Calls w (findExact p w').2
  | longest {w w' : LocalWorld ω} (name : Name) :
      Calls w w' → Calls w (findLongestPrefix name w').2
  | other {w w' : LocalWorld ω} (clock : Clock) (env : ω) :
      Calls w w' → Calls w { w' with clock := clock, env := env }

/-- Callbacks that use the controller through its interface only, with the request
callback set. -/
structure Interfaced (cbs : LocalCallbacks ω) : Prop where
  set : cbs.request.isSome = true
  request : ∀ f, cbs.request = some f → ∀ m w, Calls w (f m w)
  complete : ∀ f, cbs.complete = some f → ∀ p w, Calls w (f p w)

/-- One step of the controller.  Settings and callbacks may be different at every
step. -/
def AnyStep (w w' : LocalWorld ω) : Prop :=
  ∃ cfg cbs, Interfaced cbs ∧ LocalStep cfg cbs w w'

theorem RequestsSettled.dispatch (h : RequestsSettled w)
    (hrequest : ∀ f, cbs.request = some f → ∀ m w, RequestsSettled w → RequestsSettled (f m w))
    (m : ControlMessage) : RequestsSettled (dispatch cbs m w) := by
  unfold LocalRouteController.dispatch
  split
  · exact h
  next request hset => exact hrequest request hset m _ (h.congr rfl)

theorem RequestsSettled.applyTraceUpdate (h : RequestsSettled w)
    (hset : cbs.request.isSome = true)
    (hrequest : ∀ f, cbs.request = some f → ∀ m w, RequestsSettled w → RequestsSettled (f m w))
    {p : Name} {nameHashes : Bytes} {prefixLen port seq : Nat} {ttl : Int}
    {r : Bool × LocalWorld ω}
    (hr : applyTraceUpdate cfg cbs p nameHashes prefixLen port seq ttl w = .ok r) :
    RequestsSettled r.2 := by
  rcases applyTraceUpdate_cases hr with
    ⟨-, rfl⟩ | ⟨ctl, s, hguard, -, -, rfl⟩ | ⟨ctl, hguard, -, rfl⟩
  · exact h.congr rfl
  · obtain ⟨seen, rfl⟩ := exists_passGuard_eq hguard
    exact h.congr rfl
  · obtain ⟨seen, rfl⟩ := exists_passGuard_eq hguard
    refine RequestsSettled.dispatch ?_ hrequest _
    have hstage := requestCounters_stage cfg hset
      (candidate cfg p nameHashes prefixLen port seq ttl w)
      { w with ctl := { w.ctl with highestSeenSeq := seen } }
    simp only [requestCounters, Prod.mk.injEq] at hstage
    obtain ⟨hcontrol, htemp, hretries⟩ := hstage
    rw [RequestsSettled, hcontrol, htemp, hretries]
    have hsettled : w.ctl.counters.controlPackets =
      w.ctl.counters.tempUpdates + w.ctl.counters.controllerRetries := h
    omega

theorem RequestsSettled.handleControlResponse (h : RequestsSettled w)
    (hcomplete : ∀ f, cbs.complete = some f → ∀ p w, RequestsSettled w → RequestsSettled (f p w))
    (m : ControlMessage) : RequestsSettled (handleControlResponse cfg cbs m w).2 := by
  have haccepted : RequestsSettled (acceptResponse cfg m w).2 :=
    h.congr (requestCounters_acceptResponse cfg m w)
  unfold LocalRouteController.handleControlResponse
  split
  next w' complete hresult hcb =>
    rw [hresult] at haccepted
    exact hcomplete complete hcb _ _ haccepted
  next => exact haccepted

theorem Calls.settled (h : Calls w w') (hw : RequestsSettled w) : RequestsSettled w' := by
  induction h with
  | refl w => exact hw
  | trace hset _ hr _ hrequest ih =>
      exact (ih hw).applyTraceUpdate hset (fun f hf m w => hrequest f hf m w) hr
  | respond _ cfg m _ hcomplete ih =>
      exact (ih hw).handleControlResponse (fun f hf p w => hcomplete f hf p w) m
  | exact p _ ih => exact (ih hw).congr rfl
  | longest name _ ih => exact (ih hw).congr rfl
  | other clock env _ ih => exact (ih hw).congr rfl

theorem RequestsSettled.onControllerRetryTimeout (h : RequestsSettled w)
    (hcbs : Interfaced cbs) (p : Name) (s : Nat) :
    RequestsSettled (onControllerRetryTimeout cfg cbs p s w) := by
  simp only [LocalRouteController.onControllerRetryTimeout]
  split
  · exact h
  split_ifs
  · exact h
  · exact h.congr rfl
  · refine RequestsSettled.congr ?_ (requestCounters_rescheduleRetry cfg p s _)
    refine RequestsSettled.dispatch ?_ (fun f hf m w => (hcbs.request f hf m w).settled) _
    have hsettled : w.ctl.counters.controlPackets =
      w.ctl.counters.tempUpdates + w.ctl.counters.controllerRetries := h
    simp only [RequestsSettled]
    omega
  · exact h.congr rfl

theorem RequestsSettled.step (h : RequestsSettled w) (hstep : AnyStep w w') :
    RequestsSettled w' := by
  obtain ⟨cfg, cbs, hcbs, hstep⟩ := hstep
  cases hstep with
  | trace hr =>
      exact h.applyTraceUpdate hcbs.set (fun f hf m w => (hcbs.request f hf m w).settled) hr
  | respond m =>
      exact h.handleControlResponse (fun f hf p w => (hcbs.complete f hf p w).settled) m
  | fire he =>
      unfold LocalRouteController.fire
      split
      · exact h.congr (requestCounters_expireEntryBySeq _ _ _)
      · refine RequestsSettled.onControllerRetryTimeout ?_ hcbs _ _
        exact h.congr rfl
  | findExact p => exact h.congr rfl
  | findLongestPrefix name => exact h.congr rfl
  | idle clock hnow huid hdue env => exact h.congr rfl

/-- Requests are settled in every state of every run. -/
theorem requestsSettled {w₀ : LocalWorld ω} (hinit : w₀.ctl = {})
    (hrun : Relation.ReflTransGen AnyStep w₀ w) : RequestsSettled w := by
  refine invariant_of_steps RequestsSettled ?_ (fun _ _ h hstep => h.step hstep) hrun
  rw [RequestsSettled, hinit]
  rfl

theorem Reenter.calls (h : Reenter cfg w w') : Calls w w' := by
  induction h with
  | refl => exact .refl _
  | @respond w' m _ ih =>
      -- without a completion callback the handler is `acceptResponse`
      have hcalls : Calls w (handleControlResponse cfg (⟨none, none⟩ : LocalCallbacks ω) m w').2 :=
        Calls.respond (by rintro f ⟨⟩) cfg m ih
      rw [Loop.handleControlResponse_eq cfg rfl] at hcalls
      exact hcalls
  | exact p _ ih => exact ih.exact p
  | longest name _ ih => exact ih.longest name
  | other huid env _ ih => exact ih.other _ env

theorem Reenter.requestCounters_eq (h : Reenter cfg w w') :
    requestCounters w' = requestCounters w := by
  induction h with
  | refl => rfl
  | respond m _ ih => rw [requestCounters_acceptResponse, ih]
  | exact p _ ih => exact ih
  | longest name _ ih => exact ih
  | other huid env _ ih => exact ih

end LocalRouteController

namespace FlowTableController

/-- The ledger of submissions, read with a sign. -/
def submissionLedger (sign : Int) : Ledger where
  price
    | .packetIns => sign
    | _ => 0
  worth _ := 0
  submission := sign
  packetIn_dropped := by simp
  packetIn_sent := by simp
  accept_expired := by simp
  accept_stale := by simp
  accept_conflict := by simp
  accept_replay := by simp
  accept_again := by simp
  accept_new := by simp
  attempt_expired := by simp
  attempt_stale := by simp
  attempt_duplicate := by simp
  attempt_dropped := by simp
  attempt_noSink := by simp
  attempt_rejected := by simp
  attempt_applied := by simp
  ack_expired := by simp
  ack_dropped := by simp
  ack_sent := by simp

theorem value_submissionLedger (sign : Int) (ctl : FlowTableController) :
    (submissionLedger sign).value ctl = sign * ctl.counters .packetIns := by
  simp [Ledger.value, submissionLedger, allCounters]

end FlowTableController

namespace Loop

open LocalRouteController

variable {ε : Type} {cfg : LoopConfig} {w w' : LoopWorld ε}

/-! ## PacketIns of the loop -/

/-- Neither callback of the loop submits a PacketIn. -/
theorem keeps_centralCallbacks (l : FlowTableController.Ledger) (cfg : LoopConfig) :
    FlowTableController.Keeps l (centralCallbacks (ε := ε) cfg) where
  apply := by
    rintro f ⟨⟩ m c
    obtain ⟨switch, applied, heq⟩ := onFlowTableFlowMod_frame cfg m c
    rw [heq]
    exact FlowTableController.posts_of_eq rfl rfl rfl (Nat.le_refl _)
  syncAck := by
    rintro f ⟨⟩ m c
    rw [onSyncAck_frame]
    exact FlowTableController.posts_of_eq rfl rfl rfl (Nat.le_refl _)

theorem packetIns_submitFlowUpdate (cfg : LoopConfig) (m : ControlMessage)
    (c : FlowTableWorld (CentralEnv ε)) :
    (FlowTableController.submitFlowUpdate cfg.central (centralCallbacks cfg) m
      c).ctl.counters .packetIns = c.ctl.counters .packetIns + 1 := by
  have hposts : ∀ sign, FlowTableController.Posts (FlowTableController.submissionLedger sign)
      sign c (FlowTableController.submitFlowUpdate cfg.central (centralCallbacks cfg) m c) :=
    fun sign => FlowTableController.posts_submitFlowUpdate (keeps_centralCallbacks _ cfg) m c
  have hlower := (hposts 1).value
  have hupper := (hposts (-1)).value
  simp only [FlowTableController.value_submissionLedger] at hlower hupper
  omega

theorem packetIns_handle (event : FlowTableEvent) (c : FlowTableWorld (CentralEnv ε)) :
    (FlowTableController.handle cfg.central (centralCallbacks cfg) event
      c).ctl.counters .packetIns = c.ctl.counters .packetIns := by
  have hposts : ∀ sign, FlowTableController.Posts (FlowTableController.submissionLedger sign) 0
      c (FlowTableController.handle cfg.central (centralCallbacks cfg) event c) :=
    fun sign => FlowTableController.posts_handle (keeps_centralCallbacks _ cfg) event c
  have hlower := (hposts 1).value
  have hupper := (hposts (-1)).value
  simp only [FlowTableController.value_submissionLedger] at hlower hupper
  omega

/-- Every request has been submitted. -/
def RequestsForwarded (w : LoopWorld ε) : Prop :=
  w.ctl.counters.controlPackets = w.env.central.counters .packetIns

theorem RequestsForwarded.congr (h : RequestsForwarded w)
    (hlocal : requestCounters w' = requestCounters w)
    (hcentral : w'.env.central.counters .packetIns = w.env.central.counters .packetIns) :
    RequestsForwarded w' := by
  have hcontrol : w'.ctl.counters.controlPackets = w.ctl.counters.controlPackets :=
    congrArg Prod.fst hlocal
  rw [RequestsForwarded, hcontrol, hcentral]
  exact h

/-- One dispatch forwards one request. -/
theorem RequestsForwarded.dispatch
    (h : w.ctl.counters.controlPackets = w.env.central.counters .packetIns + 1)
    (m : ControlMessage) :
    RequestsForwarded (LocalRouteController.dispatch (temporaryCallbacks cfg) m w) := by
  have hnoted : LocalRouteController.dispatch (temporaryCallbacks cfg) m w =
      onRequest cfg m { w with log := w.log ++ [.request w.clock.now m] } := rfl
  have hreenter := (passive_temporaryCallbacks (ε := ε) cfg).request (onRequest cfg) rfl m
    { w with log := w.log ++ [.request w.clock.now m] }
  have hcontrol : (LocalRouteController.dispatch (temporaryCallbacks cfg) m
      w).ctl.counters.controlPackets = w.ctl.counters.controlPackets :=
    congrArg Prod.fst hreenter.requestCounters_eq
  rw [RequestsForwarded, hcontrol, h, hnoted]
  exact (packetIns_submitFlowUpdate cfg m
    (toCentral { w with log := w.log ++ [.request w.clock.now m] })).symm

theorem RequestsForwarded.applyTraceUpdate (h : RequestsForwarded w) {p : Name}
    {port seq : Nat} {ttl : Int} {r : Bool × LoopWorld ε}
    (hr : applyTraceUpdate cfg p port seq ttl w = .ok r) : RequestsForwarded r.2 := by
  obtain ⟨r₀, hcall, -, accepted, heq⟩ := applyTraceUpdate_eq_ok hr
  have hcalled : RequestsForwarded r₀.2 := by
    rcases applyTraceUpdate_cases hcall with
      ⟨-, rfl⟩ | ⟨ctl, s, hguard, -, -, rfl⟩ | ⟨ctl, hguard, -, rfl⟩
    · exact h.congr rfl rfl
    · obtain ⟨seen, rfl⟩ := exists_passGuard_eq hguard
      exact h.congr rfl rfl
    · obtain ⟨seen, rfl⟩ := exists_passGuard_eq hguard
      refine RequestsForwarded.dispatch ?_ _
      have hset : (temporaryCallbacks (ε := ε) cfg).request.isSome = true := rfl
      have hstage := congrArg Prod.fst (requestCounters_stage cfg.temporary hset
        (candidate cfg.temporary p (PacketHeader.hashesOf cfg.stdHash p)
          (min p.length nameHashCount) port seq ttl w)
        { w with ctl := { w.ctl with highestSeenSeq := seen } })
      simp only [requestCounters] at hstage
      rw [hstage, (stage_frame _ _ _ _).1]
      exact congrArg (· + 1) h
  rw [heq]
  exact hcalled.congr rfl rfl

theorem RequestsForwarded.onControllerRetryTimeout (h : RequestsForwarded w) (p : Name)
    (s : Nat) : RequestsForwarded
      (onControllerRetryTimeout cfg.temporary (temporaryCallbacks cfg) p s w) := by
  have hrescheduled : ∀ v : LoopWorld ε, (rescheduleRetry cfg.temporary p s v).env = v.env := by
    intro v
    unfold rescheduleRetry
    split
    · split
      · rfl
      · rfl
    · rfl
  simp only [LocalRouteController.onControllerRetryTimeout]
  split
  · exact h
  split_ifs
  · exact h
  · exact h.congr rfl rfl
  · refine RequestsForwarded.congr ?_ (requestCounters_rescheduleRetry cfg.temporary p s _)
      (by rw [hrescheduled])
    exact RequestsForwarded.dispatch (congrArg (· + 1) h) _
  · exact h.congr rfl rfl

/-- The flow-table controller makes no request. -/
theorem requestCounters_fireCentral (cfg : LoopConfig) (e : Scheduled FlowTableEvent)
    (w : LoopWorld ε) : requestCounters (toTemporary
      (FlowTableController.fire cfg.central (centralCallbacks cfg) e (toCentral w))) =
        requestCounters w := by
  have hactions : FlowTableController.Actions (centralCallbacks cfg) e.event.message
      (FlowTableController.take e (toCentral w))
      (FlowTableController.fire cfg.central (centralCallbacks cfg) e (toCentral w)) :=
    FlowTableController.actions_handle e.event _
  exact (reenter_actions hactions).requestCounters_eq

/-- One step of the loop, with any settings. -/
def AnyLoopStep (w w' : LoopWorld ε) : Prop := ∃ cfg, LoopStep cfg w w'

/-- The loop uses the local controller through its interface. -/
theorem interfaced_temporaryCallbacks (cfg : LoopConfig) :
    Interfaced (temporaryCallbacks (ε := ε) cfg) where
  set := rfl
  request f hf m w := ((passive_temporaryCallbacks cfg).request f hf m w).calls
  complete f hf p w := by cases hf

theorem requestsSettled_step (h : RequestsSettled w) (hstep : AnyLoopStep w w') :
    RequestsSettled w' := by
  obtain ⟨cfg, hstep⟩ := hstep
  have hcbs := interfaced_temporaryCallbacks (ε := ε) cfg
  cases hstep with
  | trace hr =>
      obtain ⟨r₀, hcall, -, accepted, heq⟩ := applyTraceUpdate_eq_ok hr
      rw [heq]
      exact RequestsSettled.congr (h.step ⟨_, _, hcbs, .trace hcall⟩) rfl
  | fireTemporary he hdue => exact h.step ⟨_, _, hcbs, .fire ⟨he, hdue.1⟩⟩
  | fireCentral he hdue => exact h.congr (requestCounters_fireCentral cfg _ w)
  | duplicate he delay => exact h.congr rfl
  | findExact p => exact h.congr rfl
  | findLongestPrefix name => exact h.congr rfl
  | idle clock hnow huid hdue hdue' rest => exact h.congr rfl

theorem RequestsForwarded.step (h : RequestsForwarded w) (hstep : AnyLoopStep w w') :
    RequestsForwarded w' := by
  obtain ⟨cfg, hstep⟩ := hstep
  cases hstep with
  | trace hr => exact h.applyTraceUpdate hr
  | fireTemporary he hdue =>
      unfold LocalRouteController.fire
      split
      · exact h.congr (requestCounters_expireEntryBySeq _ _ _) rfl
      · refine RequestsForwarded.onControllerRetryTimeout ?_ _ _
        exact h.congr rfl rfl
  | @fireCentral e he hdue =>
      exact h.congr (requestCounters_fireCentral cfg e w) (packetIns_handle e.event _)
  | duplicate he delay => exact h.congr rfl rfl
  | findExact p => exact h.congr rfl rfl
  | findLongestPrefix name => exact h.congr rfl rfl
  | idle clock hnow huid hdue hdue' rest => exact h.congr rfl rfl

/-- The books of the control loop.  In every state between two events, whatever the
settings, losses, delays and callbacks along the run: the flow-table controller
accounts for every PacketIn, FlowMod and SyncAck; every request of the local
controller is a first request or a retry; and in the closed loop the requests
are the PacketIns. -/
theorem messages_accounted {σ ω : Type} {c₀ c : FlowTableWorld σ} (hc₀ : c₀.ctl = {})
    (hc : Relation.ReflTransGen FlowTableController.AnyStep c₀ c)
    {l₀ l : LocalWorld ω} (hl₀ : l₀.ctl = {})
    (hl : Relation.ReflTransGen LocalRouteController.AnyStep l₀ l)
    {w₀ w : LoopWorld ε} (hw₀ : w₀.ctl = {} ∧ w₀.env.central = {})
    (hw : Relation.ReflTransGen AnyLoopStep w₀ w) :
    FlowTableController.Conserves c.ctl ∧ RequestsSettled l ∧
      RequestsSettled w ∧ RequestsForwarded w := by
  refine ⟨FlowTableController.conserves hc₀ hc, requestsSettled hl₀ hl, ?_, ?_⟩
  · refine invariant_of_steps RequestsSettled ?_ (fun _ _ h => requestsSettled_step h) hw
    rw [RequestsSettled, hw₀.1]
    rfl
  · refine invariant_of_steps RequestsForwarded ?_ (fun _ _ h hstep => h.step hstep) hw
    rw [RequestsForwarded, hw₀.1, hw₀.2]

theorem messages_accounted_sample :
    FlowTableController.completedWorld.ctl.counters .flowModsApplied = 1 ∧
      installedWorld.env.central.counters .packetIns = 1 ∧
      FlowTableController.Conserves FlowTableController.completedWorld.ctl ∧
      RequestsSettled updatedWorld ∧ RequestsSettled installedWorld ∧
      RequestsForwarded installedWorld := by
  have hcentral : Relation.ReflTransGen FlowTableController.AnyStep
      FlowTableController.freshWorld FlowTableController.completedWorld := by
    have hcbs : FlowTableController.Interfaced FlowTableController.acceptingCallbacks := by
      constructor
      · rintro f ⟨⟩ m w
        exact .refl w
      · rintro f ⟨⟩ m w
        exact .refl w
    refine (Relation.ReflTransGen.single (.step hcbs (.submit _
      FlowTableController.sampleMessage))).tail (.step hcbs (.fire ⟨?_, ?_⟩))
    · decide
    · decide
  obtain ⟨l₀, hl₀, hlocal⟩ := reachable_updatedWorld
  have hcbs : Interfaced lossyCallbacks :=
    ⟨rfl, fun f hf m w => (passive_lossyCallbacks.request f hf m w).calls,
      fun f hf => by cases hf⟩
  have hlocal : Relation.ReflTransGen LocalRouteController.AnyStep l₀ updatedWorld :=
    hlocal.lift id fun _ _ hstep => ⟨_, _, hcbs, hstep⟩
  have hloop : Relation.ReflTransGen AnyLoopStep startWorld installedWorld :=
    run_installedWorld.2.lift id fun _ _ hstep => ⟨_, hstep⟩
  exact ⟨by decide, by decide,
    messages_accounted rfl hcentral hl₀.1 hlocal ⟨rfl, rfl⟩ hloop⟩

end Loop

end Statim
