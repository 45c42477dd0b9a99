import Statim.Control.FlowTableInvariant
import Statim.Control.LocalOrder

/-!
# Runs of the flow-table controller

The invariant along whole runs, for arbitrary PacketIn contents, losses, delays
and callbacks, and what it gives: no SyncAck is false or late, and with the
generation guard on both controllers generations are admitted and installed in
strictly increasing order.
-/

namespace Statim

open Support

namespace FlowTableController

variable {σ : Type} {cfg : FlowTableConfig} {cbs : FlowTableCallbacks σ}
  {w w' : FlowTableWorld σ} {m : ControlMessage}

/-! ## The FlowMod handler -/

theorem FlowTableInv.recordApplied (h : FlowTableInv cfg w)
    (hguard : cfg.generationGuardEnabled = true → FirstAccepted w.log m ∧
      ∀ a ∈ appliedMessages w.log m.pfx, a.seq < m.seq) :
    FlowTableInv cfg { w with
      log := w.log ++ [.applied { m with type := .flowMod }]
      ctl := recordApplied cfg m w.ctl } := by
  have hevents : (FlowTableController.recordApplied cfg m w.ctl).events = w.ctl.events := by
    unfold FlowTableController.recordApplied
    split <;> rfl
  refine ⟨?_, ?_, ?_, ?_, fun hon => ?_⟩
  · rw [hevents]
    exact h.queue
  · rw [hevents]
    exact fun e he m' hm' => (h.acks e he m' hm').append _
  · exact h.history.snoc fun t ack hack => by cases hack
  · intro m' hm'
    rcases List.mem_append.mp hm' with hm' | hm'
    · exact h.kinds m' hm'
    · rw [List.mem_singleton, FlowTableObs.applied.injEq] at hm'
      rw [hm']
  · have happly := (h.guard hon).apply (hguard hon).1 (hguard hon).2
    simpa only [FlowTableController.recordApplied, hon, if_true] using happly

theorem FlowTableInv.applyFlowMod (h : FlowTableInv cfg w) (hconf : Confined cfg cbs)
    (hguard : cfg.generationGuardEnabled = true → FirstAccepted w.log m ∧
      ∀ a ∈ appliedMessages w.log m.pfx, a.seq < m.seq) :
    FlowTableInv cfg (applyFlowMod cfg cbs m w) := by
  simp only [FlowTableController.applyFlowMod]
  cases hsink : cbs.apply with
  | none => exact h.count _
  | some apply =>
      have hsinkRespects := respects_of_nestedCalls
        (hconf.apply apply hsink { m with type := .flowMod } w)
      have hreturned := hsinkRespects.inv h
      simp only
      split
      · exact hreturned.count _
      · refine FlowTableInv.scheduleSyncAck ?_ hconf.syncAckRespects ?_ false
        · refine (hreturned.count .flowModsApplied).recordApplied fun hon => ⟨?_, ?_⟩
          · exact hsinkRespects.grows.firstAccepted (hguard hon).1
          · intro a ha
            have hsame := hsinkRespects.grows.appliedMessages m.pfx
            exact (hguard hon).2 a (hsame ▸ ha)
        · exact ⟨{ m with type := .flowMod }, by simp, rfl, rfl⟩

theorem FlowTableInv.attemptFlowMod (h : FlowTableInv cfg w) (hconf : Confined cfg cbs)
    (hfirst : cfg.generationGuardEnabled = true → FirstAccepted w.log m) :
    FlowTableInv cfg (attemptFlowMod cfg cbs m w) := by
  simp only [FlowTableController.attemptFlowMod]
  have hcounted := h.count .flowModAttempts
  split
  · exact hcounted.count _
  split
  · exact hcounted.count _
  next hstale =>
    split
    next happlied =>
      refine (hcounted.count _).scheduleSyncAck hconf.syncAckRespects ?_ true
      obtain ⟨hon, happlied⟩ := Bool.and_eq_true_iff.mp happlied
      cases hst : w.ctl.prefixStates[m.pfx]? with
      | none =>
          rw [isAppliedFlowMod, show (FlowTableController.count _ w).ctl.prefixStates =
            w.ctl.prefixStates from rfl, hst] at happlied
          cases happlied
      | some st =>
          rw [isAppliedFlowMod, show (FlowTableController.count _ w).ctl.prefixStates =
            w.ctl.prefixStates from rfl, hst] at happlied
          obtain ⟨hhas, hseq⟩ := Bool.and_eq_true_iff.mp happlied
          exact h.applied_of_highestApplied hon (hfirst hon) hst hhas (of_decide_eq_true hseq)
    next happlied =>
      simp only [FlowTableController.sendFlowMod]
      split
      · exact (hcounted.shouldDrop _).count _
      · refine (hcounted.shouldDrop _).applyFlowMod hconf fun hon => ⟨hfirst hon, fun a ha => ?_⟩
        refine (hcounted.guard hon).lt_of_fresh ?_ ?_ ha
        · simpa [hon] using hstale
        · simpa [hon] using happlied

/-! ## Runs -/

theorem FlowTableInv.take (h : FlowTableInv cfg w) {e : Scheduled FlowTableEvent}
    (he : ∀ e' ∈ w.ctl.events, e.ts ≤ e'.ts) : FlowTableInv cfg (take e w) where
  queue := (h.queue.cancel e.uid).advance fun _ he' => he _ (mem_cancel.mp he').1
  acks e' he' := h.acks e' (mem_cancel.mp he').1
  history := h.history
  kinds := h.kinds
  guard hon := { h.guard hon with
    flows := fun e' he' => (h.guard hon).flows e' (mem_cancel.mp he').1 }

theorem FlowTableInv.fire (h : FlowTableInv cfg w) (hconf : Confined cfg cbs)
    {e : Scheduled FlowTableEvent} (hmem : e ∈ w.ctl.events)
    (he : ∀ e' ∈ w.ctl.events, e.ts ≤ e'.ts) : FlowTableInv cfg (fire cfg cbs e w) := by
  have htake := h.take he
  unfold FlowTableController.fire FlowTableController.handle
  cases hevent : e.event with
  | acceptControl m => exact htake.acceptControl hconf.syncAckRespects m
  | attemptFlowMod m =>
      exact htake.attemptFlowMod hconf fun hon => (h.guard hon).flows e hmem m hevent
  | deliverSyncAck m =>
      exact htake.deliverSyncAck hconf.syncAckRespects (h.acks e hmem m hevent)

/-- One step of a controller in arbitrary surroundings: any PacketIn may arrive at
any time, and between events the surroundings act and time passes. -/
inductive FlowTableStep (cfg : FlowTableConfig) (cbs : FlowTableCallbacks σ) :
    FlowTableWorld σ → FlowTableWorld σ → Prop
  | submit (w : FlowTableWorld σ) (m : ControlMessage) :
      FlowTableStep cfg cbs w (submitFlowUpdate cfg cbs m w)
  | fire {w : FlowTableWorld σ} {e : Scheduled FlowTableEvent} (he : IsNext e w.ctl.events) :
      FlowTableStep cfg cbs w (FlowTableController.fire cfg cbs e w)
  | idle {w : FlowTableWorld σ} {clock : Clock} (hnow : w.clock.now ≤ clock.now)
      (huid : w.clock.uid ≤ clock.uid) (hdue : ∀ e ∈ w.ctl.events, clock.now ≤ e.ts)
      (env : σ) :
      FlowTableStep cfg cbs w { w with clock := clock, env := env }

/-- A freshly constructed controller. -/
def IsFresh (w : FlowTableWorld σ) : Prop :=
  w.ctl.prefixStates = ∅ ∧ w.ctl.events = [] ∧ w.log = []

/-- The states that runs of a fresh controller reach. -/
def FlowTableReachable (cfg : FlowTableConfig) (cbs : FlowTableCallbacks σ)
    (w : FlowTableWorld σ) : Prop :=
  ∃ w₀, IsFresh w₀ ∧ Relation.ReflTransGen (FlowTableStep cfg cbs) w₀ w

theorem FlowTableInv.initial (h : IsFresh w) : FlowTableInv cfg w := by
  obtain ⟨hstates, hevents, hlog⟩ := h
  refine ⟨?_, ?_, ?_, ?_, fun _ => ?_⟩
  · rw [hevents]
    exact QueueInv.nil _
  · simp [hevents]
  · rw [hlog]
    exact AcksAreTrue.nil
  · simp [hlog]
  · constructor <;> simp [hstates, hevents, hlog, appliedMessages, getHighestApplied]

theorem FlowTableInv.step (h : FlowTableInv cfg w) (hconf : Confined cfg cbs)
    (hstep : FlowTableStep cfg cbs w w') : FlowTableInv cfg w' := by
  cases hstep with
  | submit m => exact h.submitFlowUpdate hconf.syncAckRespects m
  | fire he => exact h.fire hconf he.1 fun _ he' => he.ts_le he'
  | idle hnow huid hdue env =>
      exact
        { queue := ⟨h.queue.distinct, fun e he => Nat.lt_of_lt_of_le (h.queue.issued e he) huid,
            hdue⟩
          acks := h.acks
          history := h.history
          kinds := h.kinds
          guard := fun hon => { h.guard hon with } }

theorem FlowTableReachable.inv (hconf : Confined cfg cbs)
    (h : FlowTableReachable cfg cbs w) : FlowTableInv cfg w := by
  obtain ⟨w₀, hinit, hrun⟩ := h
  exact invariant_of_steps (FlowTableInv cfg) (FlowTableInv.initial hinit)
    (fun _ _ ha hstep => ha.step hconf hstep) hrun

/-! ## Completion notices -/

/-- No completion notice is false or late: whatever is submitted, lost, delayed or
done by the sink, every SyncAck handed to the callback repeats a FlowMod that
the sink applied earlier in the run, is delivered before its deadline, and an
update that was never applied is never acknowledged. -/
theorem acks_are_true (hconf : Confined cfg cbs) (h : FlowTableReachable cfg cbs w) :
    AcksAreTrue w.log ∧
      ∀ m : ControlMessage, (∀ a, .applied a ∈ w.log → a.payload ≠ m.payload) →
        ∀ t ack, .acked t ack ∈ w.log → ack.payload ≠ m.payload := by
  have hhistory := (h.inv hconf).history
  refine ⟨hhistory, fun m hnever t ack hack heq => ?_⟩
  obtain ⟨i, hi, hget⟩ := List.mem_iff_getElem.mp hack
  obtain ⟨-, -, j, -, a, ha, -, hpayload⟩ :=
    hhistory i t ack (by rw [List.getElem?_eq_getElem hi, hget])
  exact hnever a (List.mem_of_getElem? ha) (hpayload.trans heq)

/-- A guarded controller without loss or delay, and a sink that accepts. -/
def sampleConfig : FlowTableConfig where
  generationGuardEnabled := true
  drop _ _ := false
  delay _ _ := 0

def acceptingCallbacks : FlowTableCallbacks Unit where
  apply := some fun _ w => (true, w)
  syncAck := some fun _ w => w

def freshWorld : FlowTableWorld Unit where
  clock := ⟨0, 0⟩
  ctl := {}
  log := []
  env := ()

/-- The request of the sample run: port 3 for the empty prefix until time 9. -/
def sampleMessage : ControlMessage :=
  { ControlMessage.blank with seq := 1, outputPort := 3, routeExpiry := 9 }

/-- The state after the request was submitted, applied and acknowledged. -/
def completedWorld : FlowTableWorld Unit :=
  fire sampleConfig acceptingCallbacks ⟨0, 0, .attemptFlowMod sampleMessage⟩
    (submitFlowUpdate sampleConfig acceptingCallbacks sampleMessage freshWorld)

theorem confined_acceptingCallbacks : Confined sampleConfig acceptingCallbacks where
  apply := by
    rintro f ⟨⟩ m w
    exact Relation.ReflTransGen.refl
  syncAck := by
    rintro f ⟨⟩ m w
    exact Relation.ReflTransGen.refl

theorem reachable_completedWorld :
    FlowTableReachable sampleConfig acceptingCallbacks completedWorld := by
  refine ⟨freshWorld, ⟨rfl, rfl, rfl⟩, ?_⟩
  refine (Relation.ReflTransGen.single (FlowTableStep.submit _ sampleMessage)).tail ?_
  refine FlowTableStep.fire ⟨?_, ?_⟩
  · decide
  · decide

theorem acks_are_true_completedWorld :
    .acked 0 { sampleMessage with type := .syncAck } ∈ completedWorld.log ∧
      AcksAreTrue completedWorld.log :=
  ⟨by decide, (acks_are_true confined_acceptingCallbacks reachable_completedWorld).1⟩

/-! ## Installation order -/

/-- The order in which a guarded flow-table controller installs the generations of
a prefix. -/
structure InstalledInOrder (w : FlowTableWorld σ) (p : Name) : Prop where
  increasing : (appliedMessages w.log p).Pairwise fun m m' => m.seq < m'.seq
  applied_le_accepted : ∀ s q, getHighestApplied w.ctl p = some (s, q) →
    ∃ s', getHighestAccepted w.ctl p = some s' ∧ s ≤ s'
  first : ∀ m ∈ appliedMessages w.log p,
    ∃ x, acceptedAt w.log p m.seq = some x ∧ x.payload = m.payload

theorem GuardInv.installedInOrder (h : GuardInv w) (p : Name) : InstalledInOrder w p where
  increasing := h.increasing p
  applied_le_accepted s q hs := by
    obtain ⟨m, hm, hpair⟩ := Option.map_eq_some_iff.mp ((h.last p).trans hs)
    have hmem := List.mem_of_getLast? hm
    obtain ⟨hlog, hpfx⟩ := mem_appliedMessages.mp hmem
    obtain ⟨x, hx, -⟩ := Option.map_eq_some_iff.mp (h.applied m hlog)
    obtain ⟨hxlog, hxpfx, hxseq⟩ := acceptedAt_eq_some hx
    obtain ⟨st, hst, hacc, hle⟩ := h.bound x hxlog
    rw [hxpfx, hpfx] at hst
    have hseq : m.seq = s := congrArg Prod.fst hpair
    exact ⟨st.highestAccepted, by simp [getHighestAccepted, hst, hacc], by omega⟩
  first m hm := by
    obtain ⟨hlog, hpfx⟩ := mem_appliedMessages.mp hm
    obtain ⟨x, hx, hpayload⟩ := Option.map_eq_some_iff.mp (h.applied m hlog)
    exact ⟨x, hpfx ▸ hx, hpayload⟩

end FlowTableController

/-- The order in which a guarded local controller admits the generations of a
prefix. -/
structure AdmittedInOrder {ω : Type} (w : LocalWorld ω) (p : Name) : Prop where
  increasing : (admissions w.log p).Pairwise fun u v => u.seq < v.seq
  highest : ∀ s, w.ctl.getHighestSeenSeq p = some s ↔
    (∃ u ∈ admissions w.log p, u.seq = s) ∧ ∀ u ∈ admissions w.log p, u.seq ≤ s

theorem LocalRouteController.GuardedInv.admittedInOrder {ω : Type} {w : LocalWorld ω}
    (h : LocalRouteController.GuardedInv w) (p : Name) : AdmittedInOrder w p where
  increasing := h.increasing p
  highest s := by
    rw [h.watermark p]
    constructor
    · intro hs
      obtain ⟨u, hu, rfl⟩ := Option.map_eq_some_iff.mp hs
      exact ⟨⟨u, List.mem_of_getLast? hu, rfl⟩, fun v hv => h.le_last hu hv⟩
    · rintro ⟨⟨u, hu, rfl⟩, hmax⟩
      cases hlast : lastAdmission w.log p with
      | none =>
          rw [lastAdmission, List.getLast?_eq_none_iff] at hlast
          rw [hlast] at hu
          cases hu
      | some v =>
          have hle := h.le_last hlast hu
          have hge := hmax v (List.mem_of_getLast? hlast)
          rw [Option.map_some, Nat.le_antisymm hge hle]

/-- With the generation guard on, the flow-table controller applies strictly
increasing generations per prefix, never above the accepted one, each with the
payload of the first PacketIn accepted for it; and the local controller admits
strictly increasing generations and remembers the highest for good. -/
theorem guarded_order {σ ω : Type} {cfg : FlowTableConfig} {cbs : FlowTableCallbacks σ}
    {w : FlowTableWorld σ} (hon : cfg.generationGuardEnabled = true)
    (hconf : FlowTableController.Confined cfg cbs)
    (hw : FlowTableController.FlowTableReachable cfg cbs w)
    {localCfg : LocalConfig} {localCbs : LocalCallbacks ω} {l : LocalWorld ω}
    (hlocalOn : localCfg.generationGuardEnabled = true)
    (hlocalConf : LocalRouteController.Confined localCfg localCbs)
    (hl : LocalRouteController.LocalReachable localCfg localCbs l) (p : Name) :
    FlowTableController.InstalledInOrder w p ∧ AdmittedInOrder l p :=
  ⟨((hw.inv hconf).guard hon).installedInOrder p,
    (hl.guardedInv hlocalOn hlocalConf).admittedInOrder p⟩

/-! ## A generation that is overtaken -/

namespace FlowTableController

/-- A second generation with another port. -/
def secondMessage : ControlMessage := { sampleMessage with seq := 2, outputPort := 4 }

/-- A third generation. -/
def thirdMessage : ControlMessage := { sampleMessage with seq := 3, outputPort := 5 }

/-- Both are accepted, and then one with the third generation and another port. -/
def contendedWorld : FlowTableWorld Unit :=
  submitFlowUpdate sampleConfig acceptingCallbacks { thirdMessage with outputPort := 6 }
    (submitFlowUpdate sampleConfig acceptingCallbacks thirdMessage
      (submitFlowUpdate sampleConfig acceptingCallbacks secondMessage completedWorld))

/-- The FlowMod of the second generation comes too late, that of the third one is applied. -/
def overtakenWorld : FlowTableWorld Unit :=
  fire sampleConfig acceptingCallbacks ⟨0, 2, .attemptFlowMod thirdMessage⟩
    (fire sampleConfig acceptingCallbacks ⟨0, 1, .attemptFlowMod secondMessage⟩ contendedWorld)

theorem reachable_overtakenWorld :
    FlowTableReachable sampleConfig acceptingCallbacks overtakenWorld := by
  obtain ⟨w₀, hfresh, hrun⟩ := reachable_completedWorld
  have hcontended := ((hrun.tail (.submit _ secondMessage)).tail (.submit _ thirdMessage)).tail
    (.submit _ { thirdMessage with outputPort := 6 })
  have hstale := hcontended.tail (.fire (e := ⟨0, 1, .attemptFlowMod secondMessage⟩)
    ⟨by decide, by decide⟩)
  exact ⟨w₀, hfresh, hstale.tail (.fire ⟨by decide, by decide⟩)⟩

end FlowTableController

namespace LocalRouteController

/-- An update of the empty prefix, whether it is admitted or not. -/
def offered (port : Port) (seq : Nat) (w : LocalWorld Unit) : LocalWorld Unit :=
  match applyTraceUpdate sampleConfig lossyCallbacks [] [] 0 port seq 2 w with
  | .error _ => w
  | .ok r => r.2

theorem LocalReachable.offered {w : LocalWorld Unit}
    (h : LocalReachable sampleConfig lossyCallbacks w) (port : Port) (seq : Nat) :
    LocalReachable sampleConfig lossyCallbacks (offered port seq w) := by
  obtain ⟨w₀, hfresh, hrun⟩ := h
  unfold LocalRouteController.offered
  cases hupdate : applyTraceUpdate sampleConfig lossyCallbacks [] [] 0 port seq 2 w with
  | error message => exact ⟨w₀, hfresh, hrun⟩
  | ok r => exact ⟨w₀, hfresh, hrun.tail (.trace hupdate)⟩

/-- The third generation overtakes the second one. -/
def overtakenWorld : LocalWorld Unit := offered 4 2 (offered 5 3 updatedWorld)

end LocalRouteController

/-- The generation that was overtaken is neither installed nor admitted. -/
theorem guarded_order_overtakenWorld :
    appliedMessages FlowTableController.overtakenWorld.log [] =
        [{ FlowTableController.sampleMessage with type := .flowMod },
          { FlowTableController.thirdMessage with type := .flowMod }] ∧
      (admissions LocalRouteController.overtakenWorld.log []).map
        (·.seq) = [1, 3] ∧
      FlowTableController.InstalledInOrder FlowTableController.overtakenWorld [] ∧
      AdmittedInOrder LocalRouteController.overtakenWorld [] :=
  ⟨by decide, by decide, guarded_order rfl FlowTableController.confined_acceptingCallbacks
    FlowTableController.reachable_overtakenWorld rfl
    LocalRouteController.passive_lossyCallbacks.confined
    ((LocalRouteController.reachable_updatedWorld.offered 5 3).offered 4 2) []⟩

end Statim
