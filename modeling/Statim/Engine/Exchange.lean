import Statim.Engine.Feed

/-!
# The exchange of an update

Over a channel without loss a handler of the flow-table controller has few
outcomes.  Its message lapses at the deadline, or the guard suppresses it, or it
moves on: a PacketIn becomes a FlowMod, a FlowMod is applied and becomes a
SyncAck, and a SyncAck is handed to the local controller.
-/

namespace Statim

open Support

namespace Loop

open LocalRouteController FlowTableController

variable {ε : Type} {cfg : LoopConfig} {d : Legs} {c c' c'' : FlowTableWorld (CentralEnv ε)}
  {m : ControlMessage} {u : Admission}

/-! ## What a handler emits -/

/-- The handler schedules `sent` and notes `news`, and the local controller completes
updates at most. -/
structure Emits (sent : List (Scheduled FlowTableEvent)) (news : List FlowTableObs)
    (c c' : FlowTableWorld (CentralEnv ε)) : Prop where
  now : c'.clock.now = c.clock.now
  events : c'.ctl.events = c.ctl.events ++ sent
  log : c'.log = c.log ++ news
  notes : ∃ notes, c'.env.log = c.env.log ++ notes ∧
    ∀ o ∈ notes, ∃ t ack seq expiry ports, o = .completed t ack seq expiry ports

/-- Counters, draws, the records of the guard and the switch may differ. -/
structure Records (c c' : FlowTableWorld (CentralEnv ε)) : Prop where
  clock : c'.clock = c.clock
  events : c'.ctl.events = c.ctl.events
  log : c'.log = c.log
  ctl : c'.env.ctl = c.env.ctl
  notes : c'.env.log = c.env.log

theorem Records.emits (h : Records c c') : Emits [] [] c c' where
  now := by rw [h.clock]
  events := by rw [h.events, List.append_nil]
  log := by rw [h.log, List.append_nil]
  notes := ⟨[], by rw [h.notes, List.append_nil], by simp⟩

theorem Emits.trans {sent sent' : List (Scheduled FlowTableEvent)}
    {news news' : List FlowTableObs} (h : Emits sent news c c') (h' : Emits sent' news' c' c'') :
    Emits (sent ++ sent') (news ++ news') c c'' where
  now := h'.now.trans h.now
  events := by rw [h'.events, h.events, List.append_assoc]
  log := by rw [h'.log, h.log, List.append_assoc]
  notes := by
    obtain ⟨notes, heq, hcompleted⟩ := h.notes
    obtain ⟨notes', heq', hcompleted'⟩ := h'.notes
    refine ⟨notes ++ notes', by rw [heq', heq, List.append_assoc], fun o ho => ?_⟩
    rcases List.mem_append.mp ho with ho | ho
    · exact hcompleted o ho
    · exact hcompleted' o ho

theorem emits_schedule (delay : Nat) (event : FlowTableEvent)
    (c : FlowTableWorld (CentralEnv ε)) :
    Emits [c.clock.schedule delay event] [] c (FlowTableController.schedule delay event c) where
  now := rfl
  events := rfl
  log := (List.append_nil _).symm
  notes := ⟨[], (List.append_nil _).symm, by simp⟩

theorem emits_note (o : FlowTableObs) (c : FlowTableWorld (CentralEnv ε)) :
    Emits [] [o] c { c with log := c.log ++ [o] } where
  now := rfl
  events := (List.append_nil _).symm
  log := rfl
  notes := ⟨[], (List.append_nil _).symm, by simp⟩

/-- The local controller notes at most a completion. -/
theorem emits_handOver (cfg : LoopConfig) (m : ControlMessage)
    (c : FlowTableWorld (CentralEnv ε)) :
    Emits [] [.acked c.clock.now m] c (handOver (centralCallbacks cfg) m c) := by
  refine Emits.trans (emits_note (.acked c.clock.now m) c) ?_
  have hresult : handOver (centralCallbacks cfg) m c =
      onSyncAck cfg m { c with log := c.log ++ [.acked c.clock.now m] } := rfl
  rw [hresult, onSyncAck_frame]
  refine ⟨rfl, (List.append_nil _).symm, (List.append_nil _).symm, ?_⟩
  rcases acceptResponse_cases cfg.temporary m
      (toTemporary { c with log := c.log ++ [.acked c.clock.now m] }) with
    ⟨counters, heq⟩ | ⟨seq, -, -, -, -, -, heq⟩
  · rw [heq]
    exact ⟨[], (List.append_nil _).symm, by simp⟩
  · rw [heq]
    exact ⟨_, rfl, by simp⟩

/-! ## Outcomes -/

/-- Only `u` was resident, and its SyncAck has retired it. -/
def Responds (u : Admission) (c c' : FlowTableWorld (CentralEnv ε)) : Prop :=
  OnlyResident u c.env.ctl → c'.env.ctl.seqMap[u.pfx]? = none

/-- What the handler of an event does with the request of `u`. -/
inductive Outcome (cfg : LoopConfig) (d : Legs) (u : Admission)
    (c c' : FlowTableWorld (CentralEnv ε)) : FlowTableEvent → Prop
  /-- The deadline has passed. -/
  | lapse {event : FlowTableEvent} (hlapsed : u.packetIn.isExpiredAt c.clock.now = true)
      (hemits : Emits [] [] c c') : Outcome cfg d u c c' event
  /-- The guard suppresses the FlowMod of an old generation. -/
  | stale (hon : cfg.central.generationGuardEnabled = true)
      (hstale : isStaleFlowMod u.packetIn c.ctl = true) (hemits : Emits [] [] c c') :
      Outcome cfg d u c c' (.attemptFlowMod u.packetIn)
  | accept (hemits : Emits [c.clock.schedule d.flowMod (.attemptFlowMod u.packetIn)]
      [.accepted u.packetIn] c c') :
      Outcome cfg d u c c' (.acceptControl u.packetIn)
  | apply (hemits : Emits [c.clock.schedule d.syncAck (.deliverSyncAck u.packetIn)]
      [.applied { u.packetIn with type := .flowMod }] c c') :
      Outcome cfg d u c c' (.attemptFlowMod u.packetIn)
  /-- The SyncAck takes no time. -/
  | applyAndAck (hprompt : d.syncAck = 0)
      (hlive : u.packetIn.isExpiredAt c.clock.now = false)
      (hemits : Emits [] [.applied { u.packetIn with type := .flowMod },
        .acked c.clock.now { u.packetIn with type := .syncAck }] c c')
      (hresponds : Responds u c c') : Outcome cfg d u c c' (.attemptFlowMod u.packetIn)
  | ack (hlive : u.packetIn.isExpiredAt c.clock.now = false)
      (hemits : Emits [] [.acked c.clock.now { u.packetIn with type := .syncAck }] c c')
      (hresponds : Responds u c c') : Outcome cfg d u c c' (.deliverSyncAck u.packetIn)

theorem outcome_deliverSyncAck (hlossless : Lossless cfg) (u : Admission)
    (c : FlowTableWorld (CentralEnv ε)) :
    Outcome cfg d u c (deliverSyncAck cfg.central (centralCallbacks cfg) u.packetIn c)
      (.deliverSyncAck u.packetIn) := by
  by_cases hlapsed : u.packetIn.isExpiredAt c.clock.now = true
  · have hlapsed' : u.packetIn.isExpiredAt (count .syncAckAttempts c).clock.now = true := hlapsed
    simp only [deliverSyncAck, hlapsed', if_true]
    exact Outcome.lapse hlapsed (Records.emits ⟨rfl, rfl, rfl, rfl, rfl⟩)
  · have hlive : u.packetIn.isExpiredAt c.clock.now = false := (Bool.not_eq_true _).mp hlapsed
    have hclean : CleanDeliver cfg.central u.packetIn c := ⟨hlive, hlossless.kept _ _⟩
    refine Outcome.ack hlive ?_ fun honly => (acknowledged_deliverSyncAck honly hclean).1
    have hlive' : u.packetIn.isExpiredAt (count .syncAckAttempts c).clock.now = false := hlive
    have hkept : (shouldDrop cfg.central u.packetIn.pfx (count .syncAckAttempts c)).1 = false :=
      hlossless.kept _ _
    simp only [deliverSyncAck, hlive', hkept, Bool.false_eq_true, if_false]
    have hbefore : Records c (shouldDrop cfg.central u.packetIn.pfx (count .syncAckAttempts c)).2 :=
      ⟨rfl, rfl, rfl, rfl, rfl⟩
    have hhanded := hbefore.emits.trans (emits_handOver cfg { u.packetIn with type := .syncAck }
      (shouldDrop cfg.central u.packetIn.pfx (count .syncAckAttempts c)).2)
    exact hhanded.trans (Records.emits ⟨rfl, rfl, rfl, rfl, rfl⟩)

/-- A PacketIn in time moves on, if the guard has accepted nothing of its generation or
above. -/
theorem outcome_acceptControl (u : Admission) {c : FlowTableWorld (CentralEnv ε)}
    (hnewer : cfg.central.generationGuardEnabled = true →
      ∀ st, c.ctl.prefixStates[u.pfx]? = some st → st.hasAccepted = true →
        st.highestAccepted < u.seq)
    (hlegs : d.OnArrival cfg.central (.acceptControl u.packetIn) c) :
    Outcome cfg d u c (acceptControl cfg.central (centralCallbacks cfg) u.packetIn c)
      (.acceptControl u.packetIn) := by
  by_cases hlapsed : u.packetIn.isExpiredAt c.clock.now = true
  · have hlapsed' : u.packetIn.isExpiredAt (count .packetInsDelivered c).clock.now = true := hlapsed
    simp only [acceptControl, hlapsed', if_true]
    exact Outcome.lapse hlapsed (Records.emits ⟨rfl, rfl, rfl, rfl, rfl⟩)
  have hlive : u.packetIn.isExpiredAt c.clock.now = false := (Bool.not_eq_true _).mp hlapsed
  have hlive' : u.packetIn.isExpiredAt (count .packetInsDelivered c).clock.now = false := hlive
  have hdelay : cfg.central.delay u.packetIn.pfx (c.ctl.draws u.packetIn.pfx) = d.flowMod :=
    hlegs hlive
  have hmoves : ∀ b : FlowTableWorld (CentralEnv ε), Records c b → b.ctl.draws = c.ctl.draws →
      Outcome cfg d u c (scheduleFlowMod cfg.central u.packetIn b) (.acceptControl u.packetIn) := by
    intro b hb hdraws
    refine Outcome.accept ?_
    have hsample : (sampleDelay cfg.central u.packetIn.pfx
        { b with log := b.log ++ [.accepted u.packetIn] }).1 = d.flowMod := by
      rw [← hdelay, ← hdraws]
      rfl
    simp only [scheduleFlowMod, hsample]
    have hnoted := hb.emits.trans (emits_note (.accepted u.packetIn) b)
    have hdrawn : Records { b with log := b.log ++ [.accepted u.packetIn] }
        (sampleDelay cfg.central u.packetIn.pfx
          { b with log := b.log ++ [.accepted u.packetIn] }).2 := ⟨rfl, rfl, rfl, rfl, rfl⟩
    have hsent := (hnoted.trans hdrawn.emits).trans (emits_schedule d.flowMod
      (.attemptFlowMod u.packetIn) (sampleDelay cfg.central u.packetIn.pfx
        { b with log := b.log ++ [.accepted u.packetIn] }).2)
    have hclock : (sampleDelay cfg.central u.packetIn.pfx
        { b with log := b.log ++ [.accepted u.packetIn] }).2.clock = c.clock := hb.clock
    rw [hclock] at hsent
    exact hsent
  simp only [acceptControl, hlive', Bool.false_eq_true, if_false]
  split
  swap
  · exact hmoves _ ⟨rfl, rfl, rfl, rfl, rfl⟩ rfl
  next hon =>
    generalize hstate : (count .packetInsDelivered c).ctl.prefixStates[u.packetIn.pfx]?.getD {} = st
    have hbelow : st.hasAccepted = true → st.highestAccepted < u.packetIn.seq := by
      intro haccepted
      have hstate : c.ctl.prefixStates[u.pfx]?.getD {} = st := hstate
      cases hp : c.ctl.prefixStates[u.pfx]? with
      | none =>
          rw [hp, Option.getD_none] at hstate
          subst hstate
          cases haccepted
      | some st' =>
          rw [hp, Option.getD_some] at hstate
          subst hstate
          exact hnewer hon st' hp haccepted
    rw [if_neg (fun h => Nat.lt_asymm (hbelow h.1) h.2),
      if_neg (fun h => Nat.ne_of_gt (hbelow h.1) h.2)]
    exact hmoves _ ⟨rfl, rfl, rfl, rfl, rfl⟩ rfl

/-- After the application the SyncAck is on the way, or arrives at once. -/
theorem outcome_sendSyncAck (hlossless : Lossless cfg) (u : Admission)
    {b : FlowTableWorld (CentralEnv ε)} (hclock : b.clock = c.clock)
    (hctl : b.env.ctl = c.env.ctl)
    (happlied : Emits [] [.applied { u.packetIn with type := .flowMod }] c b)
    (hlive : u.packetIn.isExpiredAt c.clock.now = false)
    (hdelay : cfg.central.delay u.packetIn.pfx (b.ctl.draws u.packetIn.pfx) = d.syncAck) :
    Outcome cfg d u c (sendSyncAck cfg.central (centralCallbacks cfg) u.packetIn b)
      (.attemptFlowMod u.packetIn) := by
  have hsample : (sampleDelay cfg.central u.packetIn.pfx b).1 = d.syncAck := hdelay
  have hdrawn : Records b (sampleDelay cfg.central u.packetIn.pfx b).2 :=
    ⟨rfl, rfl, rfl, rfl, rfl⟩
  have hsampled := happlied.trans hdrawn.emits
  have hclock' : (sampleDelay cfg.central u.packetIn.pfx b).2.clock = c.clock := hclock
  have hctl' : (sampleDelay cfg.central u.packetIn.pfx b).2.env.ctl = c.env.ctl := hctl
  simp only [sendSyncAck, hsample]
  generalize (sampleDelay cfg.central u.packetIn.pfx b).2 = sampled at hsampled hclock' hctl'
  split
  next hprompt =>
    have hliveB : u.packetIn.isExpiredAt sampled.clock.now = false := by
      rw [hclock']
      exact hlive
    have hacked := outcome_deliverSyncAck (d := d) hlossless u sampled
    generalize deliverSyncAck cfg.central (centralCallbacks cfg) u.packetIn sampled =
      after at hacked
    cases hacked with
    | lapse hlapsed _ => exact absurd (hliveB.symm.trans hlapsed) Bool.false_ne_true
    | ack _ hemits hresponds =>
        rw [hclock'] at hemits
        refine Outcome.applyAndAck hprompt hlive (hsampled.trans hemits) fun honly => ?_
        refine hresponds ?_
        rw [hctl']
        exact honly
  next =>
    have hsent := hsampled.trans (emits_schedule d.syncAck (.deliverSyncAck u.packetIn) sampled)
    rw [hclock'] at hsent
    exact Outcome.apply hsent

/-- A FlowMod that reaches the sink in time is applied. -/
theorem outcome_applyFlowMod (hlossless : Lossless cfg) (u : Admission)
    {b : FlowTableWorld (CentralEnv ε)} (hrecords : Records c b)
    (hlive : u.packetIn.isExpiredAt c.clock.now = false)
    (hdelay : cfg.central.delay u.packetIn.pfx (b.ctl.draws u.packetIn.pfx) = d.syncAck) :
    Outcome cfg d u c (applyFlowMod cfg.central (centralCallbacks cfg) u.packetIn b)
      (.attemptFlowMod u.packetIn) := by
  have hliveB : u.packetIn.isExpiredAt b.clock.now = false := by
    rw [hrecords.clock]
    exact hlive
  obtain ⟨switch, applied, hframe⟩ := onFlowTableFlowMod_frame cfg
    { u.packetIn with type := .flowMod } b
  have hrecorded : ∀ ctl, (recordApplied cfg.central u.packetIn ctl).events = ctl.events ∧
      (recordApplied cfg.central u.packetIn ctl).draws = ctl.draws := by
    intro ctl
    unfold recordApplied
    split
    · exact ⟨rfl, rfl⟩
    · exact ⟨rfl, rfl⟩
  simp only [applyFlowMod, centralCallbacks, onFlowTableFlowMod_of_live hliveB, hframe,
    Bool.not_true, Bool.false_eq_true, if_false, scheduleSyncAck]
  refine outcome_sendSyncAck hlossless u hrecords.clock hrecords.ctl ?_ hlive ?_
  · refine hrecords.emits.trans ?_
    exact ⟨rfl, by simp [hrecorded, count], rfl, [], (List.append_nil _).symm, by simp⟩
  · simp only [hrecorded]
    exact hdelay

/-- A FlowMod in time is applied unless a newer generation has been accepted. -/
theorem outcome_attemptFlowMod (hlossless : Lossless cfg) (u : Admission)
    {c : FlowTableWorld (CentralEnv ε)}
    (hfirst : cfg.central.generationGuardEnabled = true →
      isAppliedFlowMod u.packetIn c.ctl = false)
    (hlegs : d.OnArrival cfg.central (.attemptFlowMod u.packetIn) c) :
    Outcome cfg d u c (attemptFlowMod cfg.central (centralCallbacks cfg) u.packetIn c)
      (.attemptFlowMod u.packetIn) := by
  by_cases hlapsed : u.packetIn.isExpiredAt c.clock.now = true
  · have hlapsed' : u.packetIn.isExpiredAt (count .flowModAttempts c).clock.now = true := hlapsed
    simp only [attemptFlowMod, hlapsed', if_true]
    exact Outcome.lapse hlapsed (Records.emits ⟨rfl, rfl, rfl, rfl, rfl⟩)
  have hlive : u.packetIn.isExpiredAt c.clock.now = false := (Bool.not_eq_true _).mp hlapsed
  have hlive' : u.packetIn.isExpiredAt (count .flowModAttempts c).clock.now = false := hlive
  simp only [attemptFlowMod, hlive', Bool.false_eq_true, if_false]
  split
  next hstale =>
    obtain ⟨hon, hstale⟩ := Bool.and_eq_true_iff.mp hstale
    exact Outcome.stale hon hstale (Records.emits ⟨rfl, rfl, rfl, rfl, rfl⟩)
  next hfresh =>
    have hdelay : cfg.central.delay u.packetIn.pfx (c.ctl.draws u.packetIn.pfx + 1) = d.syncAck :=
      hlegs hlive ((Bool.not_eq_true _).mp hfresh)
    have hnew : ¬(cfg.central.generationGuardEnabled && isAppliedFlowMod u.packetIn
        (count .flowModAttempts c).ctl) = true := by
      intro h
      obtain ⟨hon, happlied⟩ := Bool.and_eq_true_iff.mp h
      exact Bool.false_ne_true ((hfirst hon).symm.trans happlied)
    rw [if_neg hnew]
    have hkept : (shouldDrop cfg.central u.packetIn.pfx (count .flowModAttempts c)).1 = false :=
      hlossless.kept _ _
    simp only [sendFlowMod, hkept, Bool.false_eq_true, if_false]
    generalize hb : (shouldDrop cfg.central u.packetIn.pfx (count .flowModAttempts c)).2 = b
    have hrecords : Records c b := by
      rw [← hb]
      exact ⟨rfl, rfl, rfl, rfl, rfl⟩
    have hdraws : b.ctl.draws u.packetIn.pfx = c.ctl.draws u.packetIn.pfx + 1 := by
      rw [← hb]
      simp [shouldDrop, draw, count]
    exact outcome_applyFlowMod hlossless u hrecords hlive (by rw [hdraws, hdelay])

/-- A request that is submitted arrives at once, or its PacketIn is on the way. -/
theorem outcome_submitFlowUpdate (hlossless : Lossless cfg) (u : Admission)
    {c : FlowTableWorld (CentralEnv ε)}
    (hnewer : cfg.central.generationGuardEnabled = true →
      ∀ st, c.ctl.prefixStates[u.pfx]? = some st → st.hasAccepted = true →
        st.highestAccepted < u.seq)
    (hlegs : d.OnSubmit cfg.central u.packetIn c) :
    (d.packetIn ≠ 0 ∧ Emits [c.clock.schedule d.packetIn (.acceptControl u.packetIn)] [] c
      (submitFlowUpdate cfg.central (centralCallbacks cfg) u.packetIn c)) ∨
    (d.packetIn = 0 ∧ Outcome cfg d u c
      (submitFlowUpdate cfg.central (centralCallbacks cfg) u.packetIn c)
      (.acceptControl u.packetIn)) := by
  obtain ⟨hpacketIn, hflowMod⟩ := hlegs
  have hkept : (shouldDrop cfg.central u.packetIn.pfx (count .packetIns c)).1 = false :=
    hlossless.kept _ _
  have hsample : (sampleDelay cfg.central u.packetIn.pfx
      (shouldDrop cfg.central u.packetIn.pfx (count .packetIns c)).2).1 = d.packetIn := by
    rw [← hpacketIn]
    simp [sampleDelay, shouldDrop, draw, count]
  simp only [submitFlowUpdate, hkept, hsample, Bool.false_eq_true, if_false]
  generalize hb : (sampleDelay cfg.central u.packetIn.pfx
    (shouldDrop cfg.central u.packetIn.pfx (count .packetIns c)).2).2 = b
  have hrecords : Records c b := by
    rw [← hb]
    exact ⟨rfl, rfl, rfl, rfl, rfl⟩
  have hstates : b.ctl.prefixStates = c.ctl.prefixStates := by
    rw [← hb]
    rfl
  have hdraws : b.ctl.draws u.packetIn.pfx = c.ctl.draws u.packetIn.pfx + 2 := by
    rw [← hb]
    simp [sampleDelay, shouldDrop, draw, count]
  split
  next hprompt =>
    refine Or.inr ⟨hprompt, ?_⟩
    have haccepted : Outcome cfg d u b
        (acceptControl cfg.central (centralCallbacks cfg) u.packetIn b)
        (.acceptControl u.packetIn) := by
      refine outcome_acceptControl u ?_ fun hlive => ?_
      · rw [hstates]
        exact hnewer
      · rw [hrecords.clock] at hlive
        rw [hdraws]
        exact hflowMod hprompt hlive
    generalize acceptControl cfg.central (centralCallbacks cfg) u.packetIn b = after at haccepted
    cases haccepted with
    | lapse hlapsed hemits =>
        rw [hrecords.clock] at hlapsed
        exact Outcome.lapse hlapsed (hrecords.emits.trans hemits)
    | accept hemits =>
        rw [hrecords.clock] at hemits
        exact Outcome.accept (hrecords.emits.trans hemits)
  next hdelayed =>
    refine Or.inl ⟨hdelayed, ?_⟩
    have hsent := hrecords.emits.trans
      (emits_schedule d.packetIn (.acceptControl u.packetIn) b)
    rw [hrecords.clock] at hsent
    exact hsent

end Loop

end Statim
