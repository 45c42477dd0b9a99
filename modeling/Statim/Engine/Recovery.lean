import Statim.Engine.LoopGuarantees

/-!
# Recovery by a clean retry

A generation that is still pending may have lost its PacketIn, its FlowMod or
its SyncAck, and leftovers of earlier attempts may be in flight.  One retry whose
own messages are neither lost nor late completes the update all the same: the
flow-table controller accepts it, installs the generation if that has not
happened yet, and acknowledges it.
-/

namespace Statim

open Support

namespace FlowTableController

variable {σ : Type} {w w' : FlowTableWorld σ} {m : ControlMessage}

/-! ## Messages that are neither lost nor late -/

/-- The SyncAck arrives. -/
def CleanDeliver (cfg : FlowTableConfig) (m : ControlMessage) (w : FlowTableWorld σ) : Prop :=
  m.isExpiredAt w.clock.now = false ∧ cfg.drop m.pfx (w.ctl.draws m.pfx) = false

/-- The SyncAck arrives if it is not delayed. -/
def CleanAck (cfg : FlowTableConfig) (m : ControlMessage) (w : FlowTableWorld σ) : Prop :=
  cfg.delay m.pfx (w.ctl.draws m.pfx) = 0 → CleanDeliver cfg m (draw m.pfx w)

theorem CleanAck.congr {cfg : FlowTableConfig} (h : CleanAck cfg m w)
    (hnow : w'.clock.now = w.clock.now) (hdraws : w'.ctl.draws = w.ctl.draws) :
    CleanAck cfg m w' := by
  intro hdelay
  rw [hdraws] at hdelay
  obtain ⟨hlive, hkept⟩ := h hdelay
  refine ⟨?_, ?_⟩
  · rw [← hlive]
    exact congrArg (fun now : Nat => m.isExpiredAt now) hnow
  · rw [← hkept]
    simp only [draw, hdraws]

/-- The PacketIn is in time, and so is the SyncAck that it may replay at once. -/
def CleanAccept (cfg : FlowTableConfig) (m : ControlMessage) (w : FlowTableWorld σ) : Prop :=
  m.isExpiredAt w.clock.now = false ∧ (isAppliedFlowMod m w.ctl = true → CleanAck cfg m w)

/-- The FlowMod is in time and reaches the sink unless the generation is applied
already. -/
def CleanAttempt (cfg : FlowTableConfig) (m : ControlMessage) (w : FlowTableWorld σ) : Prop :=
  m.isExpiredAt w.clock.now = false ∧ (isAppliedFlowMod m w.ctl = true → CleanAck cfg m w) ∧
    (isAppliedFlowMod m w.ctl = false →
      cfg.drop m.pfx (w.ctl.draws m.pfx) = false ∧ CleanAck cfg m (draw m.pfx w))

/-- The PacketIn is sent. -/
def CleanSubmit (cfg : FlowTableConfig) (m : ControlMessage) (w : FlowTableWorld σ) : Prop :=
  cfg.drop m.pfx (w.ctl.draws m.pfx) = false ∧
    (cfg.delay m.pfx ((draw m.pfx w).ctl.draws m.pfx) = 0 →
      CleanAccept cfg m (draw m.pfx (draw m.pfx w)))

/-- A message in flight arrives and is neither late nor lost. -/
def CleanArrival (cfg : FlowTableConfig) (event : FlowTableEvent) (w : FlowTableWorld σ) :
    Prop :=
  match event with
  | .acceptControl m => CleanAccept cfg m w
  | .attemptFlowMod m => CleanAttempt cfg m w
  | .deliverSyncAck m => CleanDeliver cfg m w

/-- The message that a handler sent, if any: the event scheduled since the identifier
was current. -/
def sentSince (uid : Nat) (ctl : FlowTableController) : Option (Scheduled FlowTableEvent) :=
  ctl.events.find? fun t => decide (uid ≤ t.uid)

end FlowTableController

namespace Loop

open LocalRouteController FlowTableController

variable {ε : Type} {cfg : LoopConfig} {w w' : LoopWorld ε}
  {c c' : FlowTableWorld (CentralEnv ε)} {u : Admission} {p : Name}

/-! ## What the handlers do with a clean message -/

/-- The update has left the local controller and its SyncAck was handed over. -/
def Acknowledged (u : Admission) (c : FlowTableWorld (CentralEnv ε)) : Prop :=
  c.env.ctl.seqMap[u.pfx]? = none ∧
    ∃ t, .acked t { u.packetIn with type := .syncAck } ∈ c.log

/-- Only `u` can be resident. -/
def OnlyResident (u : Admission) (ctl : LocalRouteController) : Prop :=
  ∀ s, ctl.seqMap[u.pfx]? = some s → s = u.seq ∧ ctl.routeExpiries[u.pfx]? = some u.routeExpiry

/-- The acknowledgement of `u` leaves nothing resident. -/
theorem seqMap_acceptResponse {cfg : LocalConfig} (honly : OnlyResident u w.ctl)
    (hlive : u.packetIn.isExpiredAt w.clock.now = false) :
    (acceptResponse cfg { u.packetIn with type := .syncAck } w).2.ctl.seqMap[u.pfx]? = none := by
  have hdeadline := ControlMessage.isExpiredAt_eq_false_iff.mp hlive
  have hroute : u.packetIn.routeExpiry = u.routeExpiry := rfl
  rw [hroute] at hdeadline
  cases hseq : w.ctl.seqMap[u.pfx]? with
  | none =>
      rcases acceptResponse_cases cfg { u.packetIn with type := .syncAck } w with
        ⟨counters, heq⟩ | ⟨seq, -, hsome, -⟩
      · rw [heq]
        exact hseq
      · cases hseq.symm.trans hsome
  | some s =>
      obtain ⟨rfl, hexpiry⟩ := honly s hseq
      have hpast : ¬(0 < u.routeExpiry ∧ u.routeExpiry ≤ w.clock.now) := by
        rintro ⟨hpos, hle⟩
        rcases hdeadline with hzero | hlt
        · exact Int.ne_of_gt hpos hzero
        · exact Int.not_le.mpr hlt hle
      have hresult : (acceptResponse cfg { u.packetIn with type := .syncAck } w).2.ctl.seqMap =
          w.ctl.seqMap.erase u.pfx := by
        simp [acceptResponse, Admission.packetIn, hseq, hexpiry, hpast, retire]
      rw [hresult]
      exact Std.TreeMap.getElem?_erase_self

theorem acknowledged_onSyncAck (cfg : LoopConfig) (honly : OnlyResident u c.env.ctl)
    (hlive : u.packetIn.isExpiredAt c.clock.now = false)
    (hacked : ∃ t, .acked t { u.packetIn with type := .syncAck } ∈ c.log) :
    Acknowledged u (onSyncAck cfg { u.packetIn with type := .syncAck } c) := by
  rw [onSyncAck_frame]
  exact ⟨seqMap_acceptResponse honly hlive, hacked⟩

theorem acknowledged_deliverSyncAck (honly : OnlyResident u c.env.ctl)
    (hclean : CleanDeliver cfg.central u.packetIn c) :
    Acknowledged u (deliverSyncAck cfg.central (centralCallbacks cfg) u.packetIn c) := by
  obtain ⟨hlive, hkept⟩ := hclean
  have hlive' : u.packetIn.isExpiredAt (count .syncAckAttempts c).clock.now = false := hlive
  have hkept' : (shouldDrop cfg.central u.packetIn.pfx (count .syncAckAttempts c)).1 = false :=
    hkept
  simp only [deliverSyncAck, hlive', hkept', Bool.false_eq_true, if_false]
  exact acknowledged_onSyncAck cfg (c := { draw u.packetIn.pfx (count .syncAckAttempts c) with
    log := c.log ++ [.acked c.clock.now { u.packetIn with type := .syncAck }] }) honly hlive
      ⟨_, List.mem_append_right _ List.mem_cons_self⟩

/-- The handler either has the update acknowledged or leaves a message in flight. -/
def Proceeds (u : Admission) (uid : Nat) (c : FlowTableWorld (CentralEnv ε)) : Prop :=
  Acknowledged u c ∨ ∃ t ∈ c.ctl.events, uid ≤ t.uid

theorem proceeds_schedule (delay : Nat) (event : FlowTableEvent)
    (c : FlowTableWorld (CentralEnv ε)) :
    Proceeds u c.clock.uid (FlowTableController.schedule delay event c) :=
  Or.inr ⟨_, List.mem_append_right _ List.mem_cons_self, Nat.le_refl _⟩

theorem proceeds_sendSyncAck (honly : OnlyResident u c.env.ctl)
    (hclean : CleanAck cfg.central u.packetIn c) :
    Proceeds u c.clock.uid (sendSyncAck cfg.central (centralCallbacks cfg) u.packetIn c) := by
  simp only [sendSyncAck]
  split
  next hnow => exact Or.inl (acknowledged_deliverSyncAck honly (hclean hnow))
  · exact proceeds_schedule _ _ (draw u.packetIn.pfx c)

theorem proceeds_scheduleSyncAck (honly : OnlyResident u c.env.ctl)
    (hclean : CleanAck cfg.central u.packetIn c) (again : Bool) :
    Proceeds u c.clock.uid
      (scheduleSyncAck cfg.central (centralCallbacks cfg) u.packetIn again c) := by
  unfold scheduleSyncAck
  split
  · exact proceeds_sendSyncAck (c := count .idempotentAckReplays c) honly hclean
  · exact proceeds_sendSyncAck honly hclean

/-- What the guard of the flow-table controller knows of `u`: it has accepted nothing
newer, and if it has accepted `u` then with the same payload. -/
def NothingNewer (u : Admission) (ctl : FlowTableController) : Prop :=
  ∀ st, ctl.prefixStates[u.pfx]? = some st → st.hasAccepted = true →
    st.highestAccepted ≤ u.seq ∧
      (st.highestAccepted = u.seq → st.acceptedMessage.payload = u.packetIn.payload)

theorem proceeds_acceptControl (hon : cfg.central.generationGuardEnabled = true)
    (honly : OnlyResident u c.env.ctl) (hnewer : NothingNewer u c.ctl)
    (hclean : CleanAccept cfg.central u.packetIn c) :
    Proceeds u c.clock.uid
      (acceptControl cfg.central (centralCallbacks cfg) u.packetIn c) := by
  obtain ⟨hlive, hack⟩ := hclean
  have hlive' : u.packetIn.isExpiredAt (count .packetInsDelivered c).clock.now = false := hlive
  simp only [acceptControl, hlive', hon, Bool.false_eq_true, if_false, if_true]
  generalize hstate : (count .packetInsDelivered c).ctl.prefixStates[u.packetIn.pfx]?.getD {} = st
  have hstored : st.hasAccepted = true ∨ st.hasApplied = true →
      c.ctl.prefixStates[u.pfx]? = some st := by
    intro hused
    have hstate : c.ctl.prefixStates[u.pfx]?.getD {} = st := hstate
    cases hp : c.ctl.prefixStates[u.pfx]? with
    | none =>
        rw [hp, Option.getD_none] at hstate
        subst hstate
        simp at hused
    | some st' =>
        rw [hp, Option.getD_some] at hstate
        rw [hstate]
  split
  next hstale =>
    have hle := (hnewer st (hstored (Or.inl hstale.1)) hstale.1).1
    exact absurd hstale.2 (Nat.not_lt.mpr hle)
  split
  next hdup =>
    have hpayload := (hnewer st (hstored (Or.inl hdup.1)) hdup.1).2 hdup.2.symm
    have hsame : u.packetIn.sameUpdate st.acceptedMessage = true :=
      ControlMessage.sameUpdate_eq_true_iff.mpr hpayload.symm
    simp only [hsame, Bool.not_true, Bool.false_eq_true, if_false]
    split
    next happlied =>
      have happlied' : isAppliedFlowMod u.packetIn c.ctl = true := by
        have hst : c.ctl.prefixStates[u.packetIn.pfx]? = some st := hstored (Or.inl hdup.1)
        simp [isAppliedFlowMod, hst, happlied.1, happlied.2]
      refine proceeds_scheduleSyncAck (c := count .duplicatePacketIns { count .packetInsDelivered c
        with ctl := { (count .packetInsDelivered c).ctl with prefixStates := _ } }) honly ?_ true
      exact hack happlied'
    · exact proceeds_schedule _ _ _
  · exact proceeds_schedule _ _ _

/-- The sink accepts a FlowMod that is in time. -/
theorem onFlowTableFlowMod_of_live (hlive : u.packetIn.isExpiredAt c.clock.now = false) :
    (onFlowTableFlowMod cfg { u.packetIn with type := .flowMod } c).1 = true := by
  have hlive' : ({ u.packetIn with type := .flowMod } : ControlMessage).isExpiredAt
      c.clock.now = false := hlive
  simp [onFlowTableFlowMod, hlive']

theorem proceeds_attemptFlowMod (hon : cfg.central.generationGuardEnabled = true)
    (honly : OnlyResident u c.env.ctl)
    (hfresh : isStaleFlowMod u.packetIn c.ctl = false)
    (hclean : CleanAttempt cfg.central u.packetIn c) :
    Proceeds u c.clock.uid
      (attemptFlowMod cfg.central (centralCallbacks cfg) u.packetIn c) := by
  obtain ⟨hlive, happlied, hfirst⟩ := hclean
  have hlive' : u.packetIn.isExpiredAt (count .flowModAttempts c).clock.now = false := hlive
  have hfresh' : isStaleFlowMod u.packetIn (count .flowModAttempts c).ctl = false := hfresh
  simp only [attemptFlowMod, hlive', hfresh', Bool.and_false, Bool.false_eq_true, if_false]
  split
  next hdup =>
    obtain ⟨-, hdup⟩ := Bool.and_eq_true_iff.mp hdup
    exact proceeds_scheduleSyncAck (c := count .duplicateFlowModEventsSuppressed
      (count .flowModAttempts c)) honly (happlied hdup) true
  next hnew =>
    have hnew' : isAppliedFlowMod u.packetIn (count .flowModAttempts c).ctl = false := by
      simpa [hon] using hnew
    obtain ⟨hkept, hack⟩ := hfirst hnew'
    have hkept' : (shouldDrop cfg.central u.packetIn.pfx (count .flowModAttempts c)).1 = false :=
      hkept
    simp only [sendFlowMod, hkept', Bool.false_eq_true, if_false, applyFlowMod,
      centralCallbacks]
    have hlive'' : u.packetIn.isExpiredAt (shouldDrop cfg.central u.packetIn.pfx
      (count .flowModAttempts c)).2.clock.now = false := hlive
    obtain ⟨switch, applied, hframe⟩ := onFlowTableFlowMod_frame cfg
      { u.packetIn with type := .flowMod }
      (shouldDrop cfg.central u.packetIn.pfx (count .flowModAttempts c)).2
    simp only [onFlowTableFlowMod_of_live hlive'', hframe, Bool.not_true, Bool.false_eq_true,
      if_false]
    have hdraws : ∀ ctl, (recordApplied cfg.central u.packetIn ctl).draws = ctl.draws := by
      intro ctl
      unfold recordApplied
      split
      · rfl
      · rfl
    refine proceeds_scheduleSyncAck ?_ ?_ false
    · exact honly
    · exact hack.congr rfl (hdraws _)

theorem proceeds_submitFlowUpdate (hon : cfg.central.generationGuardEnabled = true)
    (honly : OnlyResident u c.env.ctl) (hnewer : NothingNewer u c.ctl)
    (hclean : CleanSubmit cfg.central u.packetIn c) :
    Proceeds u c.clock.uid
      (submitFlowUpdate cfg.central (centralCallbacks cfg) u.packetIn c) := by
  obtain ⟨hkept, haccept⟩ := hclean
  have hkept' : (shouldDrop cfg.central u.packetIn.pfx (count .packetIns c)).1 = false := hkept
  simp only [submitFlowUpdate, hkept', Bool.false_eq_true, if_false]
  split
  next hnow =>
    exact proceeds_acceptControl (c := draw u.packetIn.pfx (draw u.packetIn.pfx
      (count .packetIns c))) hon honly hnewer (haccept hnow)
  · exact proceeds_schedule _ _ _

/-! ## What the loop knows of the latest admission -/

theorem LoopInv.onlyResident {sw₀ : SwitchPipeline} (h : LoopInv cfg sw₀ w)
    (hlast : lastAdmission w.log u.pfx = some u) : OnlyResident u w.ctl := by
  intro s hs
  obtain ⟨v, hres⟩ := h.temporary.resident_of_mem hs
  obtain rfl : u = v := Option.some.inj (hlast.symm.trans hres.last)
  exact ⟨Option.some.inj (hs.symm.trans hres.seq), hres.expiry⟩

/-- No message in the history of the flow-table controller is newer than the latest
admission. -/
theorem LoopInv.seen_le {sw₀ : SwitchPipeline} (h : LoopInv cfg sw₀ w)
    (hon : cfg.temporary.generationGuardEnabled = true)
    (hlast : lastAdmission w.log u.pfx = some u) {o : FlowTableObs} (ho : o ∈ w.env.history)
    (hpfx : (obsMessage o).pfx = u.pfx) :
    (obsMessage o).seq ≤ u.seq ∧
      ((obsMessage o).seq = u.seq → (obsMessage o).payload = u.packetIn.payload) := by
  obtain ⟨v, hv, -, hpayload⟩ := (h.joined.seen o ho).exists_payload
  rw [hpfx] at hv
  have hseq : (obsMessage o).seq = v.seq := ControlMessage.payload_seq hpayload
  refine ⟨?_, fun heq => ?_⟩
  · rw [hseq]
    exact (h.order hon).le_last hlast hv
  · obtain rfl : v = u :=
      h.eq_of_seq hon hv (List.mem_of_getLast? hlast) (hseq.symm.trans heq)
    exact hpayload

theorem LoopInv.nothingNewer {sw₀ : SwitchPipeline} (h : LoopInv cfg sw₀ w)
    (hon : cfg.temporary.generationGuardEnabled = true)
    (hon' : cfg.central.generationGuardEnabled = true)
    (hlast : lastAdmission w.log u.pfx = some u) : NothingNewer u w.env.central := by
  intro st hst hacc
  obtain ⟨hpfx, hseq, hfirst⟩ := (h.central.guard hon').state u.pfx st hst hacc
  obtain ⟨x, hx, hpayload⟩ := Option.map_eq_some_iff.mp hfirst
  obtain ⟨hxlog, hxpfx, hxseq⟩ := acceptedAt_eq_some hx
  obtain ⟨hle, hsame⟩ := h.seen_le hon hlast hxlog (hxpfx.trans hpfx)
  simp only [obsMessage, hxseq, hseq] at hle hsame
  exact ⟨hle, fun heq => hpayload.symm.trans (hsame heq)⟩

/-- The FlowMod of the latest admission is not stale. -/
theorem LoopInv.not_stale {sw₀ : SwitchPipeline} (h : LoopInv cfg sw₀ w)
    (hon : cfg.temporary.generationGuardEnabled = true)
    (hon' : cfg.central.generationGuardEnabled = true)
    (hlast : lastAdmission w.log u.pfx = some u)
    (hfirst : FirstAccepted w.env.history u.packetIn) :
    isStaleFlowMod u.packetIn w.env.central = false := by
  obtain ⟨x, hx, -⟩ := Option.map_eq_some_iff.mp hfirst
  obtain ⟨hxlog, hxpfx, hxseq⟩ := acceptedAt_eq_some hx
  obtain ⟨st, hst, hacc, hle⟩ := (h.central.guard hon').bound x hxlog
  have hst : w.env.central.prefixStates[u.pfx]? = some st := by
    rw [hxpfx] at hst
    exact hst
  have hnewer := (h.nothingNewer hon hon' hlast st hst hacc).1
  have hpfx : u.packetIn.pfx = u.pfx := rfl
  have hseq : u.packetIn.seq = u.seq := rfl
  simp only [isStaleFlowMod, hpfx, hst, hacc, hseq, Bool.not_true, Bool.false_or]
  exact decide_eq_false (Nat.not_lt.mpr hnewer)

/-! ## Messages that a handler sends -/

/-- The history grows, and new messages in flight repeat the one that is handled. -/
structure Sends (m : ControlMessage) (c c' : FlowTableWorld (CentralEnv ε)) : Prop where
  log : ∀ o ∈ c.log, o ∈ c'.log
  events : ∀ t ∈ c'.ctl.events, t ∈ c.ctl.events ∨ t.event.message = m

theorem sends_action {m : ControlMessage}
    (h : FlowTableController.Action (centralCallbacks cfg) m c c') : Sends m c c' := by
  cases h with
  | book => exact ⟨fun _ ho => ho, fun _ ht => Or.inl ht⟩
  | schedule delay hmessage =>
      refine ⟨fun _ ho => ho, fun t ht => ?_⟩
      rcases List.mem_append.mp ht with ht | ht
      · exact Or.inl ht
      · rw [List.mem_singleton.mp ht]
        exact Or.inr hmessage
  | accept => exact ⟨fun _ ho => List.mem_append_left _ ho, fun _ ht => Or.inl ht⟩
  | refuse hsink hanswer =>
      cases hsink
      obtain ⟨switch, applied, heq⟩ := onFlowTableFlowMod_frame cfg { m with type := .flowMod } c
      rw [heq]
      exact ⟨fun _ ho => ho, fun _ ht => Or.inl ht⟩
  | apply hsink hanswer =>
      cases hsink
      obtain ⟨switch, applied, heq⟩ := onFlowTableFlowMod_frame cfg { m with type := .flowMod } c
      rw [heq]
      exact ⟨fun _ ho => List.mem_append_left _ ho, fun _ ht => Or.inl ht⟩
  | ack hsync hlive =>
      cases hsync
      rw [onSyncAck_frame]
      exact ⟨fun _ ho => List.mem_append_left _ ho, fun _ ht => Or.inl ht⟩

theorem sends_actions {m : ControlMessage}
    (h : FlowTableController.Actions (centralCallbacks cfg) m c c') : Sends m c c' := by
  induction h with
  | refl => exact ⟨fun _ ho => ho, fun _ ht => Or.inl ht⟩
  | tail _ haction ih =>
      have hlast := sends_action haction
      refine ⟨fun o ho => hlast.log o (ih.log o ho), fun t ht => ?_⟩
      rcases hlast.events t ht with ht | hmessage
      · exact ih.events t ht
      · exact Or.inr hmessage

/-- A clean message makes the exchange proceed. -/
theorem LoopInv.proceeds_fire {sw₀ : SwitchPipeline} (h : LoopInv cfg sw₀ w)
    (hon : cfg.temporary.generationGuardEnabled = true)
    (hon' : cfg.central.generationGuardEnabled = true)
    (hlast : lastAdmission w.log u.pfx = some u) {t : Scheduled FlowTableEvent}
    (ht : t ∈ w.env.central.events) (hmessage : t.event.message = u.packetIn)
    (hclean : CleanArrival cfg.central t.event (FlowTableController.take t (toCentral w))) :
    Proceeds u w.clock.uid
      (FlowTableController.fire cfg.central (centralCallbacks cfg) t (toCentral w)) := by
  have honly : OnlyResident u (FlowTableController.take t (toCentral w)).env.ctl :=
    h.onlyResident hlast
  unfold FlowTableController.fire FlowTableController.handle
  cases hevent : t.event with
  | acceptControl m =>
      rw [hevent] at hclean hmessage
      obtain rfl : m = u.packetIn := hmessage
      have hnewer := h.nothingNewer hon hon' hlast
      exact proceeds_acceptControl (c := FlowTableController.take t (toCentral w)) hon' honly
        hnewer hclean
  | attemptFlowMod m =>
      have hfirst := (h.central.guard hon').flows t ht m hevent
      rw [hevent] at hclean hmessage
      obtain rfl : m = u.packetIn := hmessage
      have hfresh := h.not_stale hon hon' hlast hfirst
      exact proceeds_attemptFlowMod (c := FlowTableController.take t (toCentral w)) hon' honly
        hfresh hclean
  | deliverSyncAck m =>
      rw [hevent] at hclean hmessage
      obtain rfl : m = u.packetIn := hmessage
      exact Or.inl (acknowledged_deliverSyncAck honly hclean)

/-! ## Other steps -/

theorem seqMap_of_reenter {cfg : LocalConfig} (h : Reenter cfg w w')
    (hnone : w.ctl.seqMap[p]? = none) : w'.ctl.seqMap[p]? = none := by
  induction h with
  | refl => exact hnone
  | @respond v m _ ih =>
      rcases acceptResponse_cases cfg m v with ⟨counters, heq⟩ | ⟨seq, -, -, -, -, -, heq⟩
      · rw [heq]
        exact ih
      · rw [heq]
        simp only [retire, Std.TreeMap.getElem?_erase, ih, ite_self]
  | exact p _ ih => exact ih
  | longest name _ ih => exact ih
  | other huid env _ ih => exact ih

/-- A dispatch neither admits an update nor forgets an observation. -/
theorem acknowledged_dispatch (h : Acknowledged u (toCentral w)) (m : ControlMessage) :
    Acknowledged u (toCentral (dispatch (temporaryCallbacks cfg) m w)) := by
  obtain ⟨hnone, t, hacked⟩ := h
  have hsends : Sends m (toCentral { w with log := w.log ++ [.request w.clock.now m] })
      (toCentral (dispatch (temporaryCallbacks cfg) m w)) :=
    sends_actions (FlowTableController.actions_submitFlowUpdate m _)
  have hreenter := (passive_temporaryCallbacks (ε := ε) cfg).request (onRequest cfg) rfl m
    { w with log := w.log ++ [.request w.clock.now m] }
  exact ⟨seqMap_of_reenter hreenter hnone, t, hsends.log _ hacked⟩

theorem acknowledged_rescheduleRetry (h : Acknowledged u (toCentral w)) (p : Name) (s : Nat) :
    Acknowledged u (toCentral (rescheduleRetry cfg.temporary p s w)) := by
  unfold rescheduleRetry
  split
  · split
    · exact h
    · exact h
  · exact h

theorem acknowledged_fire (h : Acknowledged u (toCentral w)) (e : Scheduled LocalEvent) :
    Acknowledged u (toCentral (fire cfg.temporary (temporaryCallbacks cfg) e w)) := by
  obtain ⟨hnone, t, hacked⟩ := h
  have hnone : w.ctl.seqMap[u.pfx]? = none := hnone
  have herase : ∀ q, (w.ctl.seqMap.erase q)[u.pfx]? = none := by
    intro q
    rw [Std.TreeMap.getElem?_erase, hnone, ite_self]
  unfold LocalRouteController.fire
  split
  next q s _ =>
    refine ⟨?_, t, hacked⟩
    have hseq := seqMap_expireEntryBySeq (take e w).ctl q s
    have hgoal : (expireEntryBySeq q s (take e w).ctl).seqMap[u.pfx]? = none := by
      rw [hseq]
      split
      · exact herase q
      · exact hnone
    exact hgoal
  next q s _ =>
    simp only [onControllerRetryTimeout]
    split
    · exact ⟨hnone, t, hacked⟩
    split_ifs
    · exact ⟨hnone, t, hacked⟩
    · exact ⟨hnone, t, hacked⟩
    · refine acknowledged_rescheduleRetry (acknowledged_dispatch ?_ _) q s
      exact ⟨hnone, t, hacked⟩
    · exact ⟨herase q, t, hacked⟩

theorem acknowledged_applyTraceUpdate (h : Acknowledged u (toCentral w)) {port seq : Nat}
    {ttl : Int} {r : Bool × LoopWorld ε} (hr : applyTraceUpdate cfg p port seq ttl w = .ok r)
    (hsame : admissions r.2.log u.pfx = admissions w.log u.pfx) :
    Acknowledged u (toCentral r.2) := by
  obtain ⟨r₀, hcall, -, accepted, heq⟩ := applyTraceUpdate_eq_ok hr
  rw [heq] at hsame ⊢
  suffices hcalled : Acknowledged u (toCentral r₀.2) from hcalled
  rcases applyTraceUpdate_cases hcall with
    ⟨-, rfl⟩ | ⟨ctl, s, hguard, -, -, rfl⟩ | ⟨ctl, hguard, -, rfl⟩
  · exact h
  · obtain ⟨seen, rfl⟩ := exists_passGuard_eq hguard
    exact h
  · obtain ⟨seen, rfl⟩ := exists_passGuard_eq hguard
    generalize candidate cfg.temporary p (PacketHeader.hashesOf cfg.stdHash p)
      (min p.length nameHashCount) port seq ttl w = a at hsame ⊢
    have hstages := stages_stage cfg.temporary (temporaryCallbacks (ε := ε) cfg) a
      { w with ctl := { w.ctl with highestSeenSeq := seen } }
    have hother : a.pfx ≠ u.pfx := by
      intro hpfx
      have hstaged := (admissions_dispatch (passive_temporaryCallbacks cfg) a.packetIn
        u.pfx).symm.trans hsame
      rw [hstages.log, admissions_append] at hstaged
      have hone : admissions [.admitted a] u.pfx = [a] := by simp [admissions, hpfx]
      rw [hone] at hstaged
      simpa using congrArg List.length hstaged
    refine acknowledged_dispatch ⟨?_, ?_⟩ _
    · have hseq := hstages.seq u.pfx
      rw [if_neg hother] at hseq
      exact hseq.trans h.1
    · have hhistory : (stage cfg.temporary (temporaryCallbacks cfg) a
          { w with ctl := { w.ctl with highestSeenSeq := seen } }).env = w.env :=
        (stage_frame _ _ _ _).1
      obtain ⟨t, hacked⟩ := h.2
      refine ⟨t, ?_⟩
      have hgoal : .acked t { u.packetIn with type := .syncAck } ∈
          (stage cfg.temporary (temporaryCallbacks cfg) a
            { w with ctl := { w.ctl with highestSeenSeq := seen } }).env.history := by
        rw [hhistory]
        exact hacked
      exact hgoal

/-- An acknowledged update stays so until another update of its prefix is admitted. -/
theorem LoopStep.acknowledged (hstep : LoopStep cfg w w')
    (hsame : admissions w'.log u.pfx = admissions w.log u.pfx)
    (h : Acknowledged u (toCentral w)) : Acknowledged u (toCentral w') := by
  cases hstep with
  | trace hr => exact acknowledged_applyTraceUpdate h hr hsame
  | fireTemporary he hdue => exact acknowledged_fire h _
  | @fireCentral t ht hdue =>
      obtain ⟨hnone, time, hacked⟩ := h
      have hactions : FlowTableController.Actions (centralCallbacks cfg) t.event.message
          (FlowTableController.take t (toCentral w))
          (FlowTableController.fire cfg.central (centralCallbacks cfg) t (toCentral w)) :=
        FlowTableController.actions_handle t.event _
      exact ⟨seqMap_of_reenter (reenter_actions hactions) hnone, time,
        (sends_actions hactions).log _ hacked⟩
  | duplicate he delay => exact h
  | findExact q => exact h
  | findLongestPrefix name => exact h
  | idle clock hnow huid hdue hdue' rest => exact h

/-! ## The round of a retry -/

/-- The round that a retry starts.  It follows the PacketIn of the retry and the
messages that it causes, each of them neither lost nor late; anything else may
happen in between, except that a newer update of the prefix is admitted.  The
last argument is the message of the round that is in flight, and `none` after
the round. -/
inductive Round (cfg : LoopConfig) (w : LoopWorld ε) (e : Scheduled LocalEvent)
    (m : ControlMessage) : LoopWorld ε → Option (Scheduled FlowTableEvent) → Prop
  | retry (hclean : CleanSubmit cfg.central m (toCentral (take e w))) :
      Round cfg w e m (fire cfg.temporary (temporaryCallbacks cfg) e w)
        (sentSince w.clock.uid
          (fire cfg.temporary (temporaryCallbacks cfg) e w).env.central)
  | meanwhile {v v' : LoopWorld ε} {t : Scheduled FlowTableEvent}
      (h : Round cfg w e m v (some t)) (hstep : LoopStep cfg v v')
      (ht : t ∈ v'.env.central.events)
      (hsame : admissions v'.log m.pfx = admissions v.log m.pfx) :
      Round cfg w e m v' (some t)
  | arrive {v : LoopWorld ε} {t : Scheduled FlowTableEvent}
      (h : Round cfg w e m v (some t)) (ht : t ∈ v.env.central.events) (hdue : IsDue v t.key)
      (hclean : CleanArrival cfg.central t.event (FlowTableController.take t (toCentral v))) :
      Round cfg w e m (toTemporary
          (FlowTableController.fire cfg.central (centralCallbacks cfg) t (toCentral v)))
        (sentSince v.clock.uid
          (FlowTableController.fire cfg.central (centralCallbacks cfg) t (toCentral v)).ctl)
  | after {v v' : LoopWorld ε} (h : Round cfg w e m v none) (hstep : LoopStep cfg v v')
      (hsame : admissions v'.log m.pfx = admissions v.log m.pfx) :
      Round cfg w e m v' none

/-- What holds in the middle of a round. -/
structure InRound (cfg : LoopConfig) (sw₀ : SwitchPipeline) (u : Admission) (v : LoopWorld ε)
    (next : Option (Scheduled FlowTableEvent)) : Prop where
  inv : LoopInv cfg sw₀ v
  last : lastAdmission v.log u.pfx = some u
  message : ∀ t, next = some t → t.event.message = u.packetIn
  finished : next = none → Acknowledged u (toCentral v)

theorem exists_sentSince {uid : Nat} {ctl : FlowTableController} :
    (∃ t ∈ ctl.events, uid ≤ t.uid) ↔ ∃ t, sentSince uid ctl = some t := by
  rw [← Option.isSome_iff_exists, sentSince, List.find?_isSome]
  simp

theorem mem_of_sentSince {uid : Nat} {ctl : FlowTableController} {t : Scheduled FlowTableEvent}
    (h : sentSince uid ctl = some t) : t ∈ ctl.events ∧ uid ≤ t.uid :=
  ⟨List.mem_of_find?_eq_some h, by simpa using List.find?_some h⟩

/-- A handler that makes the exchange proceed is a round's next stage. -/
theorem InRound.of_proceeds {sw₀ : SwitchPipeline} {v : LoopWorld ε} {uid : Nat}
    (hinv : LoopInv cfg sw₀ v) (hlast : lastAdmission v.log u.pfx = some u)
    (hproceeds : Proceeds u uid (toCentral v))
    (hmessage : ∀ t ∈ v.env.central.events, uid ≤ t.uid → t.event.message = u.packetIn) :
    InRound cfg sw₀ u v (sentSince uid v.env.central) where
  inv := hinv
  last := hlast
  message t ht := by
    obtain ⟨hmem, huid⟩ := mem_of_sentSince ht
    exact hmessage t hmem huid
  finished hnone := by
    rcases hproceeds with hacked | hsent
    · exact hacked
    · obtain ⟨t, ht⟩ := exists_sentSince.mp hsent
      cases hnone.symm.trans ht

/-- The world in which a retry is dispatched. -/
def spent (e : Scheduled LocalEvent) (p : Name) (pending : PendingControllerRequest)
    (w : LoopWorld ε) : LoopWorld ε :=
  { take e w with ctl := { (take e w).ctl with
    pendingControllerRequests := (take e w).ctl.pendingControllerRequests.insert p
      { pending with retriesLeft := pending.retriesLeft - 1 }
    counters.controllerRetries := (take e w).ctl.counters.controllerRetries + 1
    counters.controlPackets := (take e w).ctl.counters.controlPackets + 1 } }

theorem fire_retry (cfg : LoopConfig) {e : Scheduled LocalEvent} {s : Nat}
    {pending : PendingControllerRequest}
    (hevent : e.event = .onControllerRetryTimeout p s)
    (hpending : w.ctl.pendingControllerRequests[p]? = some pending) (hseq : pending.seq = s)
    (hres : w.ctl.seqMap[p]? = some s) (hleft : 0 < pending.retriesLeft) :
    fire cfg.temporary (temporaryCallbacks cfg) e w = rescheduleRetry cfg.temporary p s
      (dispatch (temporaryCallbacks cfg) pending.msg (spent e p pending w)) := by
  have hpending' : (take e w).ctl.pendingControllerRequests[p]? = some pending := hpending
  have hres' : (take e w).ctl.seqMap[p]? = some s := hres
  simp only [LocalRouteController.fire, hevent, onControllerRetryTimeout, hpending', hseq, hres',
    ne_eq, not_true_eq_false, if_false, hleft, if_true, spent]

theorem rescheduleRetry_frame (cfg : LocalConfig) (p : Name) (s : Nat) (w : LoopWorld ε) :
    (rescheduleRetry cfg p s w).env = w.env ∧ (rescheduleRetry cfg p s w).log = w.log := by
  unfold rescheduleRetry
  split
  · split
    · exact ⟨rfl, rfl⟩
    · exact ⟨rfl, rfl⟩
  · exact ⟨rfl, rfl⟩

theorem LoopInv.inRound_retry {sw₀ : SwitchPipeline} (h : LoopInv cfg sw₀ w)
    (hon : cfg.temporary.generationGuardEnabled = true)
    (hon' : cfg.central.generationGuardEnabled = true) {e : Scheduled LocalEvent}
    (he : e ∈ w.ctl.events) (hdue : IsDue w e.key)
    (hevent : e.event = .onControllerRetryTimeout u.pfx u.seq)
    {pending : PendingControllerRequest}
    (hpending : w.ctl.pendingControllerRequests[u.pfx]? = some pending)
    (hmsg : pending.msg = u.packetIn) (hseq : pending.seq = u.seq)
    (hres : w.ctl.seqMap[u.pfx]? = some u.seq)
    (hlast : lastAdmission w.log u.pfx = some u) (hleft : 0 < pending.retriesLeft)
    (hclean : CleanSubmit cfg.central u.packetIn (toCentral (take e w))) :
    InRound cfg sw₀ u (fire cfg.temporary (temporaryCallbacks cfg) e w)
      (sentSince w.clock.uid (fire cfg.temporary (temporaryCallbacks cfg) e w).env.central) := by
  have hfire := fire_retry cfg hevent hpending hseq hres hleft
  rw [hmsg] at hfire
  obtain ⟨henv, hlog⟩ := rescheduleRetry_frame cfg.temporary u.pfx u.seq
    (dispatch (temporaryCallbacks cfg) u.packetIn (spent e u.pfx pending w))
  have hsends : Sends u.packetIn (toCentral { spent e u.pfx pending w with
      log := w.log ++ [.request e.ts u.packetIn] })
      (toCentral (dispatch (temporaryCallbacks cfg) u.packetIn (spent e u.pfx pending w))) :=
    sends_actions (FlowTableController.actions_submitFlowUpdate u.packetIn _)
  refine InRound.of_proceeds (h.step (.fireTemporary he hdue)) ?_ ?_ ?_
  · rw [hfire, hlog, lastAdmission, admissions_dispatch (passive_temporaryCallbacks cfg)]
    exact hlast
  · have hproceeds : Proceeds u w.clock.uid (toCentral
        (dispatch (temporaryCallbacks cfg) u.packetIn (spent e u.pfx pending w))) :=
      proceeds_submitFlowUpdate (c := toCentral { spent e u.pfx pending w with
        log := w.log ++ [.request e.ts u.packetIn] }) hon' (h.onlyResident hlast)
        (h.nothingNewer hon hon' hlast) hclean
    rw [hfire]
    rcases hproceeds with hacked | ⟨t, ht, huid⟩
    · exact Or.inl (acknowledged_rescheduleRetry hacked _ _)
    · refine Or.inr ⟨t, ?_, huid⟩
      have hmem : t ∈ (rescheduleRetry cfg.temporary u.pfx u.seq (dispatch
          (temporaryCallbacks cfg) u.packetIn (spent e u.pfx pending w))).env.central.events := by
        rw [henv]
        exact ht
      exact hmem
  · intro t ht huid
    rw [hfire, henv] at ht
    rcases hsends.events t ht with hold | hmessage
    · exact absurd (h.central.queue.issued t hold) (Nat.not_lt.mpr huid)
    · exact hmessage

theorem InRound.arrive {sw₀ : SwitchPipeline} {t : Scheduled FlowTableEvent}
    (h : InRound cfg sw₀ u w (some t)) (hon : cfg.temporary.generationGuardEnabled = true)
    (hon' : cfg.central.generationGuardEnabled = true) (ht : t ∈ w.env.central.events)
    (hdue : IsDue w t.key)
    (hclean : CleanArrival cfg.central t.event (FlowTableController.take t (toCentral w))) :
    InRound cfg sw₀ u
      (toTemporary (FlowTableController.fire cfg.central (centralCallbacks cfg) t (toCentral w)))
      (sentSince w.clock.uid
        (FlowTableController.fire cfg.central (centralCallbacks cfg) t (toCentral w)).ctl) := by
  have hmessage := h.message t rfl
  have hactions : FlowTableController.Actions (centralCallbacks cfg) t.event.message
      (FlowTableController.take t (toCentral w))
      (FlowTableController.fire cfg.central (centralCallbacks cfg) t (toCentral w)) :=
    FlowTableController.actions_handle t.event _
  refine InRound.of_proceeds (h.inv.step (.fireCentral ht hdue)) ?_ ?_ ?_
  · rw [lastAdmission, (reenter_actions hactions).admissions]
    exact h.last
  · exact h.inv.proceeds_fire hon hon' h.last ht hmessage hclean
  · intro t' ht' huid
    rcases (sends_actions hactions).events t' ht' with hold | hnew
    · have hissued := h.inv.central.queue.issued t' (mem_cancel.mp hold).1
      exact absurd hissued (Nat.not_lt.mpr huid)
    · exact hnew.trans hmessage

theorem LoopInv.inRound {sw₀ : SwitchPipeline} (h : LoopInv cfg sw₀ w)
    (hon : cfg.temporary.generationGuardEnabled = true)
    (hon' : cfg.central.generationGuardEnabled = true) {e : Scheduled LocalEvent}
    (he : e ∈ w.ctl.events) (hdue : IsDue w e.key)
    (hevent : e.event = .onControllerRetryTimeout u.pfx u.seq)
    {pending : PendingControllerRequest}
    (hpending : w.ctl.pendingControllerRequests[u.pfx]? = some pending)
    (hmsg : pending.msg = u.packetIn) (hseq : pending.seq = u.seq)
    (hres : w.ctl.seqMap[u.pfx]? = some u.seq)
    (hlast : lastAdmission w.log u.pfx = some u) (hleft : 0 < pending.retriesLeft)
    {v : LoopWorld ε} {next : Option (Scheduled FlowTableEvent)}
    (hround : Round cfg w e u.packetIn v next) : InRound cfg sw₀ u v next := by
  induction hround with
  | retry hclean =>
      exact h.inRound_retry hon hon' he hdue hevent hpending hmsg hseq hres hlast hleft hclean
  | meanwhile _ hstep ht hsame ih =>
      refine ⟨ih.inv.step hstep, ?_, ih.message, fun hnone => by cases hnone⟩
      exact (congrArg List.getLast? hsame).trans ih.last
  | arrive _ ht hdue hclean ih => exact ih.arrive hon hon' ht hdue hclean
  | after _ hstep hsame ih =>
      refine ⟨ih.inv.step hstep, ?_, ih.message, fun _ => ?_⟩
      · exact (congrArg List.getLast? hsame).trans ih.last
      · exact hstep.acknowledged hsame (ih.finished rfl)

/-- The update has left the local controller, and the flow-table controller has
applied it exactly once and last. -/
structure Recovered (w : LoopWorld ε) (u : Admission) : Prop where
  vacant : Vacant w u.pfx
  highest : getHighestApplied w.env.central u.pfx = some (u.seq, u.port)
  last : (appliedMessages w.env.history u.pfx).getLast?.map (·.payload) =
    some u.packetIn.payload
  once : (appliedMessages w.env.history u.pfx).countP (fun a => decide (a.seq = u.seq)) = 1

/-- With the guard, an applied latest admission is the last one applied. -/
theorem LoopInv.last_of_applied {sw₀ : SwitchPipeline} (h : LoopInv cfg sw₀ w)
    (hon : cfg.temporary.generationGuardEnabled = true)
    (hon' : cfg.central.generationGuardEnabled = true)
    (hlast : lastAdmission w.log u.pfx = some u) {a : ControlMessage}
    (ha : .applied a ∈ w.env.history) (hpayload : a.payload = u.packetIn.payload) :
    ∃ init, appliedMessages w.env.history u.pfx = init ++ [a] ∧ ∀ b ∈ init, b.seq < u.seq := by
  have hapfx : a.pfx = u.pfx := ControlMessage.payload_pfx hpayload
  have haseq : a.seq = u.seq := ControlMessage.payload_seq hpayload
  have hmem : a ∈ appliedMessages w.env.history u.pfx := mem_appliedMessages.mpr ⟨ha, hapfx⟩
  obtain ⟨init, later, hsplit⟩ := List.append_of_mem hmem
  have hinc : (appliedMessages w.env.history u.pfx).Pairwise fun x y => x.seq < y.seq :=
    (h.central.guard hon').increasing u.pfx
  rw [hsplit, List.pairwise_append, List.pairwise_cons] at hinc
  cases later with
  | nil =>
      refine ⟨init, hsplit, fun b hb => ?_⟩
      rw [← haseq]
      exact hinc.2.2 b hb a List.mem_cons_self
  | cons b later =>
      -- a later one would be newer than the latest admission
      exfalso
      have hb : b ∈ appliedMessages w.env.history u.pfx := by
        rw [hsplit]
        exact List.mem_append_right _ (List.mem_cons_of_mem _ List.mem_cons_self)
      obtain ⟨hblog, hbpfx⟩ := mem_appliedMessages.mp hb
      have hle : b.seq ≤ u.seq := (h.seen_le hon hlast hblog hbpfx).1
      have hlt := hinc.2.1.1 b List.mem_cons_self
      omega

theorem InRound.recovered {sw₀ : SwitchPipeline} (h : InRound cfg sw₀ u w none)
    (hon : cfg.temporary.generationGuardEnabled = true)
    (hon' : cfg.central.generationGuardEnabled = true) : Recovered w u := by
  obtain ⟨hnone, t, hacked⟩ := h.finished rfl
  obtain ⟨i, hi, hget⟩ := List.mem_iff_getElem.mp hacked
  obtain ⟨-, -, j, -, a, ha, -, hpayload⟩ := h.inv.central.history i t _ (by
    rw [List.getElem?_eq_getElem hi, hget])
  have hpayload : a.payload = u.packetIn.payload := hpayload
  obtain ⟨init, hsplit, hinit⟩ :=
    h.inv.last_of_applied hon hon' h.last (List.mem_of_getElem? ha) hpayload
  have hgetLast : (appliedMessages w.env.history u.pfx).getLast? = some a := by
    rw [hsplit, List.getLast?_concat]
  refine ⟨?_, ?_, ?_, ?_⟩
  · rcases h.inv.temporary.each u.pfx with hvacant | ⟨v, hres⟩
    · exact hvacant
    · cases hnone.symm.trans hres.seq
  · have hhighest := (h.inv.central.guard hon').last u.pfx
    have hlog : (toCentral w).log = w.env.history := rfl
    rw [hlog, hgetLast] at hhighest
    have hseq : a.seq = u.seq := ControlMessage.payload_seq hpayload
    have hport : a.outputPort = u.port := congrArg ControlMessage.Payload.outputPort hpayload
    rw [Option.map_some, hseq, hport] at hhighest
    exact hhighest.symm
  · rw [hgetLast, Option.map_some, hpayload]
  · have hseq : a.seq = u.seq := ControlMessage.payload_seq hpayload
    have hearlier : init.countP (fun b => decide (b.seq = u.seq)) = 0 := by
      rw [List.countP_eq_zero]
      intro b hb
      simpa using Nat.ne_of_lt (hinit b hb)
    rw [hsplit, List.countP_append, hearlier]
    simp [hseq]

/-- One clean retry recovers from every loss.  Take any reachable state of the
guarded loop in which a generation is pending with retries left, whatever of its
earlier messages was lost or is still in flight.  After a retry whose messages
are neither dropped nor late, with no newer update of the prefix in between, the
local controller holds nothing for the prefix, and the flow-table controller has
applied the generation exactly once, as the last one and with its payload. -/
theorem clean_retry_recovers {w₀ v : LoopWorld ε} (hrun : LoopRun cfg w₀ w)
    (hon : cfg.temporary.generationGuardEnabled = true)
    (hon' : cfg.central.generationGuardEnabled = true) {e : Scheduled LocalEvent}
    (he : e ∈ w.ctl.events) (hdue : IsDue w e.key) {s : Nat}
    (hevent : e.event = .onControllerRetryTimeout p s) {pending : PendingControllerRequest}
    (hpending : w.ctl.pendingControllerRequests[p]? = some pending)
    (hleft : 0 < pending.retriesLeft) (hround : Round cfg w e pending.msg v none) :
    ∃ u, lastAdmission w.log p = some u ∧ u.pfx = p ∧ u.seq = s ∧ u.packetIn = pending.msg ∧
      Recovered v u := by
  have hinv := hrun.inv
  obtain ⟨hretrying, u, hres, hseq, -⟩ := hinv.temporary.resident_of_retry he hevent
  obtain rfl : u.pfx = p := hres.pfx
  obtain ⟨pending', hpending', hpseq, hmsg, -⟩ := hres.pending.1 hretrying
  obtain rfl : pending' = pending := Option.some.inj (hpending'.symm.trans hpending)
  rw [hmsg] at hround
  rw [← hseq] at hevent
  have hend := hinv.inRound hon hon' he hdue hevent hpending hmsg hpseq hres.seq hres.last hleft
    hround
  exact ⟨u, hres.last, rfl, hseq, hmsg.symm, hend.recovered hon hon'⟩

/-! ## A sample round -/

/-- A guarded loop that loses its first message and retries after a microsecond. -/
def lossyConfig : LoopConfig :=
  { promptConfig with
    temporary := { promptConfig.temporary with
      controllerRetryTimeout := 1000
      controllerRetryLimit := 1 }
    central := { promptConfig.central with drop := fun _ n => n = 0 } }

/-- The PacketIn of the update is lost. -/
def lostRequestWorld : LoopWorld Unit := traced lossyConfig samplePrefix 3 1 5 startWorld

def sampleRetry : Scheduled LocalEvent :=
  ⟨1000, 1, .onControllerRetryTimeout samplePrefix 1⟩

/-- The retry is accepted, and its FlowMod is in flight. -/
def retriedWorld : LoopWorld Unit :=
  fire lossyConfig.temporary (temporaryCallbacks lossyConfig) sampleRetry lostRequestWorld

def sampleFlowMod : Scheduled FlowTableEvent :=
  ⟨1000, 2, .attemptFlowMod sampleUpdate.packetIn⟩

/-- The FlowMod is applied and acknowledged. -/
def recoveredWorld : LoopWorld Unit :=
  toTemporary (FlowTableController.fire lossyConfig.central (centralCallbacks lossyConfig)
    sampleFlowMod (toCentral retriedWorld))

theorem run_lostRequestWorld : LoopRun lossyConfig startWorld lostRequestWorld :=
  ⟨⟨⟨rfl, rfl⟩, ⟨rfl, rfl, rfl⟩, .init⟩, steps_traced _ _ _ _ _ _⟩

theorem round_recoveredWorld :
    Round lossyConfig lostRequestWorld sampleRetry sampleUpdate.packetIn recoveredWorld none := by
  have hretried : Round lossyConfig lostRequestWorld sampleRetry sampleUpdate.packetIn
      retriedWorld (some sampleFlowMod) := by
    have hsent : sentSince lostRequestWorld.clock.uid retriedWorld.env.central =
        some sampleFlowMod := by decide
    rw [← hsent]
    refine Round.retry ⟨by decide, fun _ => ⟨by decide, fun happlied => ?_⟩⟩
    exact absurd happlied (by decide)
  have hdone : sentSince retriedWorld.clock.uid recoveredWorld.env.central = none := by decide
  rw [← hdone]
  refine Round.arrive hretried (by decide) (by decide) ⟨by decide, fun happlied => ?_, fun _ => ?_⟩
  · exact absurd happlied (by decide)
  · exact ⟨by decide, fun _ => ⟨by decide, by decide⟩⟩

theorem clean_retry_recovers_recoveredWorld :
    lostRequestWorld.env.central.counters .packetInsDropped = 1 ∧
      ∃ u, lastAdmission lostRequestWorld.log samplePrefix = some u ∧ u.pfx = samplePrefix ∧
        u.seq = 1 ∧ u.packetIn = sampleUpdate.packetIn ∧ Recovered recoveredWorld u := by
  obtain ⟨pending, hpending, hleft, hmsg⟩ : ∃ pending,
      lostRequestWorld.ctl.pendingControllerRequests[samplePrefix]? = some pending ∧
        0 < pending.retriesLeft ∧ pending.msg = sampleUpdate.packetIn :=
    ⟨{ seq := 1, retriesLeft := 1, timer := 1, msg := sampleUpdate.packetIn }, by rfl, by decide,
      rfl⟩
  have hround := round_recoveredWorld
  rw [← hmsg] at hround ⊢
  exact ⟨by decide, clean_retry_recovers run_lostRequestWorld rfl rfl (by decide) (by decide) rfl
    hpending hleft hround⟩

end Loop

end Statim
