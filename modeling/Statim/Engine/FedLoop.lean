import Statim.Engine.Settlement

/-!
# Fed loops settle their updates on time

The settlement of a fed loop is kept by every one of its steps: a Trace update is
admitted and its request submitted, a message is handled, and everything else
lets time pass.
-/

namespace Statim

open Support

namespace Loop

open LocalRouteController FlowTableController

variable {ε : Type} {cfg : LoopConfig} {d : Legs} {w w' : LoopWorld ε} {m : ControlMessage}
  {u v : Admission} {p : Name} {plan : List PlannedUpdate} {event : FlowTableEvent}
  {sw₀ : SwitchPipeline} {hand : Option Admission} {c c' c'' : FlowTableWorld (CentralEnv ε)}

/-! ## What the guard of the flow-table controller knows -/

/-- What was accepted of earlier updates only is of an older generation. -/
theorem Settlement.highestAccepted_lt (h : Settlement d plan hand w') (hplan : WellBehaved plan)
    (hguard : GuardInv (toCentral w))
    (hseen : ∀ o ∈ w.env.history, Descends w'.log (obsMessage o)) (hu : .admitted u ∈ w'.log)
    (haccepted : ∀ m, .accepted m ∈ w.env.history → m.pfx = u.pfx → m.origin < u.origin) :
    ∀ st, w.env.central.prefixStates[u.pfx]? = some st → st.hasAccepted = true →
      st.highestAccepted < u.seq := by
  intro st hst hacc
  obtain ⟨hpfx, hseq, hfirst⟩ := hguard.state u.pfx st hst hacc
  obtain ⟨x, hx, -⟩ := Option.map_eq_some_iff.mp hfirst
  obtain ⟨hxlog, hxpfx, hxseq⟩ := acceptedAt_eq_some hx
  have hxp : x.pfx = u.pfx := hxpfx.trans hpfx
  have hlt := h.seq_lt_of_descends hplan hu (hseen _ hxlog) hxp (haccepted x hxlog hxp)
  have hlt : x.seq < u.seq := hlt
  omega

/-- Of earlier updates only, nothing of this generation was applied. -/
theorem Settlement.isAppliedFlowMod_eq_false (h : Settlement d plan hand w')
    (hplan : WellBehaved plan) (hguard : GuardInv (toCentral w))
    (hseen : ∀ o ∈ w.env.history, Descends w'.log (obsMessage o)) (hu : .admitted u ∈ w'.log)
    (happlied : ∀ m, .applied m ∈ w.env.history → m.pfx = u.pfx → m.origin < u.origin) :
    isAppliedFlowMod u.packetIn w.env.central = false := by
  rw [← Bool.not_eq_true]
  intro htrue
  have hpfx : u.packetIn.pfx = u.pfx := rfl
  rw [isAppliedFlowMod, hpfx] at htrue
  cases hst : w.env.central.prefixStates[u.pfx]? with
  | none => simp [hst] at htrue
  | some st =>
      simp only [hst, Bool.and_eq_true, decide_eq_true_eq] at htrue
      obtain ⟨happ, hseq⟩ := htrue
      have hlast := hguard.last u.pfx
      have hstored : (toCentral w).ctl.prefixStates[u.pfx]? = some st := hst
      rw [getHighestApplied, hstored, Option.bind_some, if_pos happ] at hlast
      obtain ⟨a, ha, heq⟩ := Option.map_eq_some_iff.mp hlast
      obtain ⟨halog, hap⟩ := mem_appliedMessages.mp (List.mem_of_getLast? ha)
      have hlt := h.seq_lt_of_descends hplan hu (hseen _ halog) hap (happlied a halog hap)
      have hlt : a.seq < u.seq := hlt
      have haseq : a.seq = st.highestApplied := congrArg Prod.fst heq
      have huseq : u.packetIn.seq = u.seq := rfl
      omega

/-! ## A message is handled -/

theorem Outcome.records (h : Outcome cfg d u c c' event) (hr : Records c' c'') :
    Outcome cfg d u c c'' event := by
  have hemits : ∀ {sent : List (Scheduled FlowTableEvent)} {news : List FlowTableObs},
      Emits sent news c c' → Emits sent news c c'' := by
    intro sent news hemits
    have htrans := hemits.trans hr.emits
    rwa [List.append_nil, List.append_nil] at htrans
  have hresponds : Responds u c c' → Responds u c c'' := by
    intro hresponds honly
    rw [hr.ctl]
    exact hresponds honly
  cases h with
  | lapse hlapsed he => exact .lapse hlapsed (hemits he)
  | stale hon hstale he => exact .stale hon hstale (hemits he)
  | accept he => exact .accept (hemits he)
  | apply he => exact .apply (hemits he)
  | applyAndAck hprompt hlive he hack =>
      exact .applyAndAck hprompt hlive (hemits he) (hresponds hack)
  | ack hlive he hack => exact .ack hlive (hemits he) (hresponds hack)

/-- The handler of the message in hand settles it. -/
theorem Settlement.outcome (h : Settlement d plan (some u) w) (hplan : WellBehaved plan)
    (hinv : LoopInv cfg sw₀ w') (hhand : Holds d u event w)
    (hissued : ∀ b ∈ w.env.central.events, b.uid < w.clock.uid)
    (hfresh : cfg.central.generationGuardEnabled = true → event = .attemptFlowMod u.packetIn →
      lastAdmission w.log u.pfx = some u → isStaleFlowMod u.packetIn w.env.central = false)
    (honly : lastAdmission w.log u.pfx = some u → OnlyResident u w.ctl)
    (houtcome : Outcome cfg d u (toCentral w) (toCentral w') event) :
    Settlement d plan none w' := by
  have hrange := h.range hplan hhand.admitted
  have htimeline : OnTime d w' :=
    onTime_outcome (c := toCentral w) h.timeline h.chron hhand hissued houtcome
  have hgone : ∀ {sent : List (Scheduled FlowTableEvent)} {news : List FlowTableObs},
      Emits sent news (toCentral w) (toCentral w') → Responds u (toCentral w) (toCentral w') →
      u.packetIn.isExpiredAt w.clock.now = false → lastAdmission w.log u.pfx = some u →
      updates w'.log = updates w.log → (∀ t q s, .withdrawn t q s ∉ w'.log) →
      Completed w' u := by
    intro sent news hemits hresponds hlive hlast hupdates hkept
    refine h.completed_of_gone hplan hinv hupdates hkept hlast (hresponds (honly hlast)) ?_
    have hnow : w'.clock.now = w.clock.now := hemits.now
    rw [hnow]
    exact (isExpiredAt_packetIn_eq_false_iff hrange _).mp hlive
  have hsent : ∀ {delay : Nat} {event' : FlowTableEvent} {news : List FlowTableObs},
      Emits [(toCentral w).clock.schedule delay event'] news (toCentral w) (toCentral w') →
      event'.message = u.packetIn → InFlight w' u := by
    intro delay event' news hemits hmessage
    refine ⟨(toCentral w).clock.schedule delay event', ?_, hmessage⟩
    have hevents : w'.env.central.events = w.env.central.events ++
        [(toCentral w).clock.schedule delay event'] := hemits.events
    rw [hevents]
    exact List.mem_append_right _ List.mem_cons_self
  cases houtcome with
  | lapse hlapsed hemits =>
      refine h.emits hplan hinv hemits htimeline fun _ _ _ => Or.inr (Or.inr fun hlive => ?_)
      have hnow : w.clock.now ≤ u.time + d.total := by
        rw [hhand.now]
        exact Nat.add_le_add_left (d.arrival_le_total event) _
      have hlive' := (isExpiredAt_packetIn_eq_false_iff hrange _).mpr (hlive.mono hnow)
      exact Bool.false_ne_true (hlive'.symm.trans hlapsed)
  | stale hon hstale hemits =>
      refine h.emits hplan hinv hemits htimeline fun hlast _ _ => ?_
      exact absurd ((hfresh hon rfl hlast).symm.trans hstale) Bool.false_ne_true
  | accept hemits =>
      exact h.emits hplan hinv hemits htimeline fun _ _ _ => Or.inr (Or.inl (hsent hemits rfl))
  | apply hemits =>
      exact h.emits hplan hinv hemits htimeline fun _ _ _ => Or.inr (Or.inl (hsent hemits rfl))
  | applyAndAck _ hlive hemits hresponds =>
      exact h.emits hplan hinv hemits htimeline fun hlast hupdates hkept =>
        Or.inl (hgone hemits hresponds hlive hlast hupdates hkept)
  | ack hlive hemits hresponds =>
      exact h.emits hplan hinv hemits htimeline fun hlast hupdates hkept =>
        Or.inl (hgone hemits hresponds hlive hlast hupdates hkept)

/-- Running the next event of the flow-table controller keeps the settlement. -/
theorem Settlement.fireCentral (h : Settlement d plan none w) (hplan : WellBehaved plan)
    (hlossless : Lossless cfg)
    (hguards : cfg.central.generationGuardEnabled = true →
      cfg.temporary.generationGuardEnabled = true)
    (hinv : LoopInv cfg sw₀ w) {e : Scheduled FlowTableEvent} (he : e ∈ w.env.central.events)
    (hdue : IsDue w e.key)
    (hlegs : d.OnArrival cfg.central e.event (FlowTableController.take e (toCentral w))) :
    Settlement d plan none (toTemporary
      (FlowTableController.fire cfg.central (centralCallbacks cfg) e (toCentral w))) := by
  have hinv' := hinv.step (.fireCentral he hdue)
  obtain ⟨u, hhand, htaken⟩ := h.take hinv.central.queue he hdue
  have hmessage := hhand.message
  have houtcome : Outcome cfg d u (FlowTableController.take e (toCentral w))
      (FlowTableController.fire cfg.central (centralCallbacks cfg) e (toCentral w)) e.event := by
    unfold FlowTableController.fire FlowTableController.handle
    cases hevent : e.event with
    | acceptControl m =>
        rw [hevent] at hmessage hlegs hhand
        obtain rfl : m = u.packetIn := hmessage
        refine outcome_acceptControl u (fun hon => ?_) hlegs
        exact htaken.highestAccepted_lt hplan (hinv.central.guard hon) hinv.joined.seen
          hhand.admitted (hhand.accepted rfl)
    | attemptFlowMod m =>
        rw [hevent] at hmessage hlegs hhand
        obtain rfl : m = u.packetIn := hmessage
        refine outcome_attemptFlowMod hlossless u (fun hon => ?_) hlegs
        exact htaken.isAppliedFlowMod_eq_false hplan (hinv.central.guard hon) hinv.joined.seen
          hhand.admitted (hhand.applied (Nat.le_refl 1))
    | deliverSyncAck m =>
        rw [hevent] at hmessage
        obtain rfl : m = u.packetIn := hmessage
        exact outcome_deliverSyncAck hlossless u _
  refine htaken.outcome hplan hinv' hhand (fun b hb => ?_) (fun hon hevent hlast => ?_)
    (fun hlast => hinv.onlyResident hlast) houtcome
  · exact hinv.central.queue.issued b (mem_cancel.mp hb).1
  · have hfirst := (hinv.central.guard hon).flows e he u.packetIn hevent
    exact hinv.not_stale (hguards hon) hon hlast hfirst

/-! ## An update is admitted -/

/-- Every message of the run belongs to an update before the next one. -/
theorem Numbered.origin_lt {log : List LocalObs} (h : Numbered log) (hm : Descends log m)
    (hpfx : m.pfx = u.pfx) (horigin : u.origin = (admissions log u.pfx).length) :
    m.origin < u.origin := by
  obtain ⟨v, hv, heq⟩ := hm
  obtain ⟨hvlog, hvp⟩ := mem_admissions.mp hv
  have hlt := h.lt_length hvlog
  have hmorigin : m.origin = v.origin := by
    rw [heq]
    rfl
  rw [hvp, hpfx] at hlt
  omega

/-- The next update has been admitted and requested, and nothing else has happened. -/
structure Admitting (u : Admission) (w w' : LoopWorld ε) : Prop where
  time : u.time = w.clock.now
  origin : u.origin = (admissions w.log u.pfx).length
  log : ∃ t m, w'.log = w.log ++ [.admitted u, .request t m]
  now : w'.clock.now = w.clock.now
  events : w'.env.central.events = w.env.central.events
  history : w'.env.history = w.env.history

theorem Admitting.grows (h : Admitting u w w') : ∀ o ∈ w.log, o ∈ w'.log := by
  obtain ⟨t, m, hlog⟩ := h.log
  intro o ho
  rw [hlog]
  exact List.mem_append_left _ ho

theorem Admitting.updates (h : Admitting u w w') : updates w'.log = updates w.log ++ [u] := by
  obtain ⟨t, m, hlog⟩ := h.log
  rw [hlog, updates_append]
  rfl

theorem Admitting.admissions (h : Admitting u w w') (q : Name) :
    admissions w'.log q = admissions (w.log ++ [.admitted u]) q := by
  refine admissions_congr ?_ q
  rw [h.updates, updates_append]
  rfl

theorem Admitting.lastAdmission (h : Admitting u w w') (q : Name) :
    lastAdmission w'.log q = if u.pfx = q then some u else lastAdmission w.log q := by
  rw [← lastAdmission_admitted, Statim.lastAdmission,
    Statim.lastAdmission, h.admissions]

/-- The update before the next one is the last so far. -/
theorem Admitting.last_of_next (h : Admitting u w w') (hnumbered : Numbered w.log)
    (hv : .admitted v ∈ w.log) (hpfx : u.pfx = v.pfx) (hnext : u.origin = v.origin + 1) :
    Statim.lastAdmission w.log u.pfx = some v := by
  have horigin := h.origin
  rw [hpfx]
  rcases hnumbered.next_or_last hv with hlast | ⟨x, hx, hxp, hxnum⟩
  · exact hlast
  · have hlt := hnumbered.lt_length hx
    rw [hxp, ← hpfx] at hlt
    omega

/-- No SyncAck of the next update has been sent. -/
theorem Admitting.not_acked (h : Admitting u w w') (hsettlement : Settlement d plan none w)
    (t : Nat) : .acked t { u.packetIn with type := .syncAck } ∉ w.env.history := by
  intro hacked
  obtain ⟨y, hy, hsame, -, -⟩ := hsettlement.timeline.acked _ _ hacked
  have hpfx : u.pfx = y.pfx := congrArg ControlMessage.pfx hsame
  have hnum : u.origin = y.origin := congrArg ControlMessage.origin hsame
  have hlt := hsettlement.numbered.lt_length hy
  have horigin := h.origin
  rw [← hpfx] at hlt
  omega

/-- What has been completed stays so with the next update in the plan. -/
theorem Settlement.sound_admit (h : Settlement d plan none w) (hinv : LoopInv cfg sw₀ w)
    (hadmitting : Admitting u w w') {late : Bool}
    (hearly : late = false → ∀ v, lastAdmission w.log u.pfx = some v →
      v.time + d.total = w.clock.now →
        ∀ t, .acked t { v.packetIn with type := .syncAck } ∉ w.env.history)
    (hv : Completed w' v) : Completes d (plan ++ [⟨u, late⟩]) w'.clock.now v := by
  obtain ⟨hv, t, seq, expiry, ports, hmem⟩ := hv
  have hmem : .completed t { v.packetIn with type := .syncAck } seq expiry ports ∈ w.log := by
    obtain ⟨t', m, hlog⟩ := hadmitting.log
    rw [hlog] at hmem
    simpa using hmem
  have hacked := hinv.joined.acked _ _ _ _ _ hmem
  -- an update that is completed before was admitted before
  have hvold : .admitted v ∈ w.log := by
    rw [← mem_updates, hadmitting.updates, List.mem_append, List.mem_singleton] at hv
    rcases hv with hv | rfl
    · exact mem_updates.mp hv
    · exact absurd hacked (hadmitting.not_acked h t)
  obtain ⟨hlive, hpast, hnext⟩ := h.sound v ⟨hvold, t, seq, expiry, ports, hmem⟩
  rw [hadmitting.now]
  refine ⟨hlive, hpast, fun b hb hpfx hnum => ?_⟩
  rcases List.mem_append.mp hb with hb | hb
  · exact hnext b hb hpfx hnum
  · obtain rfl := List.mem_singleton.mp hb
    have hpfx : u.pfx = v.pfx := hpfx
    have hnum : u.origin = v.origin + 1 := hnum
    rcases Nat.lt_or_eq_of_le hpast with hlt | heq
    · exact Or.inl (by rw [hadmitting.time]; exact hlt)
    · refine Or.inr ⟨heq.trans hadmitting.time.symm, ?_⟩
      have hlast := hadmitting.last_of_next h.numbered hvold hpfx hnum
      cases late with
      | true => rfl
      | false => exact absurd hacked (hearly rfl v hlast heq t)

/-- The next update leaves the last one so far as it is. -/
theorem Settlement.earlier_admit (h : Settlement d plan none w) (hinv : LoopInv cfg sw₀ w)
    (hadmitting : Admitting u w w') {late : Bool}
    (hlate : late = true → ∀ v, lastAdmission w.log u.pfx = some v →
      v.time + d.total = w.clock.now → ∀ e ∈ w.env.central.events, e.event.message ≠ v.packetIn)
    (hv : .admitted v ∈ w.log) (hpfx : u.pfx = v.pfx) (hnum : u.origin = v.origin + 1) :
    Completed w' v ∨ ¬v.LiveAt (v.time + d.total) ∨ ¬Before d v ⟨u, late⟩ := by
  have hlast := hadmitting.last_of_next h.numbered hv hpfx hnum
  rcases h.last _ _ hlast with hcompleted | ⟨e, he, hmessage⟩ | hnone | hlapsed
  · exact Or.inl (hcompleted.mono hadmitting.grows)
  · -- a message of the update before is still on its way
    refine Or.inr (Or.inr ?_)
    obtain ⟨y, hy, hcarried, hts⟩ := h.timeline.inFlight e he
    have hyv : y = v := h.numbered.eq_of_packetIn hy hv (hcarried.symm.trans hmessage)
    rw [hyv] at hts
    have harrival := d.arrival_le_total e.event
    have hdue : w.clock.now ≤ e.ts := hinv.central.queue.due e he
    have htime := hadmitting.time
    rintro (hlt | ⟨heq, hislate⟩)
    · have hlt : v.time + d.total < u.time := hlt
      omega
    · have heq : v.time + d.total = u.time := heq
      exact hlate hislate v hlast (heq.trans htime) e he hmessage
  · cases hnone
  · exact Or.inr (Or.inl hlapsed)

/-- The update joins the plan, and its request comes to hand. -/
theorem Settlement.admit (h : Settlement d plan none w) (hinv : LoopInv cfg sw₀ w)
    (hadmitting : Admitting u w w') {late : Bool}
    (htie : ∀ v, lastAdmission w.log u.pfx = some v → v.time + d.total = w.clock.now →
      (late = true → ∀ e ∈ w.env.central.events, e.event.message ≠ v.packetIn) ∧
      (late = false → ∀ t, .acked t { v.packetIn with type := .syncAck } ∉ w.env.history)) :
    Settlement d (plan ++ [⟨u, late⟩]) (some u) w' := by
  have hgrows := hadmitting.grows
  have htime := hadmitting.time
  constructor
  case timeline =>
    rw [OnTime, hadmitting.events, hadmitting.history, hadmitting.now]
    exact h.timeline.mono hgrows (Nat.le_refl _)
  case admitted =>
    rw [hadmitting.updates, h.admitted, List.map_append]
    rfl
  case numbered =>
    intro q i v hv
    rw [hadmitting.admissions] at hv
    exact h.numbered.admit hadmitting.origin q i v hv
  case chronological =>
    rw [List.pairwise_append]
    refine ⟨h.chronological, List.pairwise_singleton _ _, fun a ha b hb => ?_⟩
    rw [List.mem_singleton.mp hb, htime]
    exact h.past a ha
  case past =>
    intro a ha
    rw [hadmitting.now]
    rcases List.mem_append.mp ha with ha | ha
    · exact h.past a ha
    · rw [List.mem_singleton.mp ha, htime]
  case kept =>
    intro t q s hmem
    obtain ⟨t', m, hlog⟩ := hadmitting.log
    rw [hlog] at hmem
    simp only [List.mem_append, List.mem_cons, reduceCtorEq, List.not_mem_nil, or_false] at hmem
    exact h.kept t q s hmem
  case sound =>
    intro v hv
    exact h.sound_admit hinv hadmitting (fun hlate v hlast heq => (htie v hlast heq).2 hlate) hv
  case last =>
    intro q v hv
    rw [hadmitting.lastAdmission] at hv
    split at hv
    · exact Or.inr (Or.inr (Or.inl hv))
    · rcases h.last q v hv with hcompleted | ⟨b, hb, hmessage⟩ | hnone | hlapsed
      · exact Or.inl (hcompleted.mono hgrows)
      · exact Or.inr (Or.inl ⟨b, by rw [hadmitting.events]; exact hb, hmessage⟩)
      · cases hnone
      · exact Or.inr (Or.inr (Or.inr hlapsed))
  case earlier =>
    intro a ha b hb hpfx hnum
    rcases List.mem_append.mp ha with ha | ha
    · have haold := h.admitted_of_plan ha
      rcases List.mem_append.mp hb with hb | hb
      · rcases h.earlier a ha b hb hpfx hnum with hcompleted | hrest
        · exact Or.inl (hcompleted.mono hgrows)
        · exact Or.inr hrest
      · obtain rfl := List.mem_singleton.mp hb
        exact h.earlier_admit hinv hadmitting
          (fun hlate v hlast heq => (htie v hlast heq).1 hlate) haold hpfx hnum
    · -- no update follows the new one
      exfalso
      have horigin := hadmitting.origin
      obtain rfl := List.mem_singleton.mp ha
      have hpfx : b.update.pfx = u.pfx := hpfx
      have hnum : b.update.origin = u.origin + 1 := hnum
      rcases List.mem_append.mp hb with hb | hb
      · have hlt := h.numbered.lt_length (h.admitted_of_plan hb)
        rw [hpfx] at hlt
        omega
      · obtain rfl := List.mem_singleton.mp hb
        have hnum : u.origin = u.origin + 1 := hnum
        omega

/-! ## A Trace update -/

/-- An input that does not throw is decided by the generation checks. -/
theorem exists_applyTraceUpdate_eq_ok {x : TraceInput} (h : throws cfg x = false)
    (w : LoopWorld ε) : ∃ r, applyTraceUpdate cfg x.pfx x.port x.seq x.ttl w = .ok r := by
  rw [throws, Bool.or_eq_false_iff, decide_eq_false_iff_not] at h
  obtain ⟨hnonneg, hsame⟩ := h
  have hsame : ¬(0 < wrap64 (x.ttl * 1000) ∧ 0 < cfg.temporary.entryLifetime ∧
      wrap64 (x.ttl * 1000) ≠ cfg.temporary.entryLifetime) := by
    rintro ⟨hsupplied, hconfigured, hne⟩
    simp [hsupplied, hconfigured, hne] at hsame
  have hcall : ∃ r, LocalRouteController.applyTraceUpdate cfg.temporary (temporaryCallbacks cfg)
      x.pfx (PacketHeader.hashesOf cfg.stdHash x.pfx) (min x.pfx.length nameHashCount) x.port
      x.seq x.ttl w = .ok r := by
    unfold LocalRouteController.applyTraceUpdate
    rw [if_neg hnonneg]
    dsimp only
    rw [if_neg hsame]
    cases passGuard cfg.temporary x.pfx x.seq w.ctl with
    | none => exact ⟨_, rfl⟩
    | some ctl =>
        dsimp only
        split
        · split
          · exact ⟨_, rfl⟩
          · exact ⟨_, rfl⟩
        · exact ⟨_, rfl⟩
  obtain ⟨⟨accepted, v⟩, hcall⟩ := hcall
  unfold applyTraceUpdate
  rw [hcall]
  cases accepted with
  | false => exact ⟨_, rfl⟩
  | true => exact ⟨_, rfl⟩

/-- An input that throws changes nothing. -/
theorem traced_of_throws {x : TraceInput} (h : throws cfg x = true) (w : LoopWorld ε) :
    traced cfg x.pfx x.port x.seq x.ttl w = w := by
  rw [throws, Bool.or_eq_true, decide_eq_true_eq] at h
  have hcall : ∃ message, LocalRouteController.applyTraceUpdate cfg.temporary
      (temporaryCallbacks cfg) x.pfx (PacketHeader.hashesOf cfg.stdHash x.pfx)
      (min x.pfx.length nameHashCount) x.port x.seq x.ttl w = .error message := by
    unfold LocalRouteController.applyTraceUpdate
    by_cases hneg : x.ttl < 0
    · rw [if_pos hneg]
      exact ⟨_, rfl⟩
    · have hdiffers : 0 < wrap64 (x.ttl * 1000) ∧ 0 < cfg.temporary.entryLifetime ∧
          wrap64 (x.ttl * 1000) ≠ cfg.temporary.entryLifetime := by
        simpa [hneg, and_assoc] using h
      rw [if_neg hneg]
      dsimp only
      rw [if_pos hdiffers]
      exact ⟨_, rfl⟩
  obtain ⟨message, hcall⟩ := hcall
  simp only [traced, applyTraceUpdate, hcall]

/-- The world in which an admitted update is submitted. -/
def requested (cfg : LoopConfig) (u : Admission) (seen : Std.TreeMap Name Nat)
    (w : LoopWorld ε) : LoopWorld ε :=
  let v := stage cfg.temporary (temporaryCallbacks cfg) u
    { w with ctl := { w.ctl with highestSeenSeq := seen } }
  { v with log := v.log ++ [.request v.clock.now u.packetIn] }

theorem requested_frame (cfg : LoopConfig) (u : Admission) (seen : Std.TreeMap Name Nat)
    (w : LoopWorld ε) : (requested cfg u seen w).clock.now = w.clock.now ∧
      w.clock.uid ≤ (requested cfg u seen w).clock.uid ∧ (requested cfg u seen w).env = w.env ∧
      (requested cfg u seen w).log =
        w.log ++ [.admitted u, .request w.clock.now u.packetIn] := by
  have hs := stages_stage cfg.temporary (temporaryCallbacks (ε := ε) cfg) u
    { w with ctl := { w.ctl with highestSeenSeq := seen } }
  obtain ⟨henv, huid⟩ := stage_frame cfg.temporary (temporaryCallbacks (ε := ε) cfg) u
    { w with ctl := { w.ctl with highestSeenSeq := seen } }
  refine ⟨hs.now, huid, henv, ?_⟩
  simp only [requested, hs.log, hs.now, List.append_assoc]
  rfl

theorem Settlement.length_admissions (h : Settlement d plan hand w) (p : Name) :
    (admissions w.log p).length = plan.countP fun a => decide (a.update.pfx = p) := by
  rw [admissions_eq_filter, h.admitted, List.filter_map, List.length_map,
    ← List.countP_eq_length_filter]
  rfl

/-- The update that an input asks for is the one that the controller considers. -/
theorem Settlement.candidate_eq (h : Settlement d plan hand w) {x : TraceInput}
    (htime : x.time = w.clock.now) :
    candidate cfg.temporary x.pfx (PacketHeader.hashesOf cfg.stdHash x.pfx)
      (min x.pfx.length nameHashCount) x.port x.seq x.ttl w = planUpdate cfg plan x := by
  simp only [candidate, planUpdate, h.length_admissions, htime]

/-- A loop admits every update of a well-behaved plan. -/
theorem Settlement.traced_eq (h : Settlement d plan none w) (hinv : LoopInv cfg sw₀ w)
    {x : TraceInput} (hplan : WellBehaved (plan ++ [⟨planUpdate cfg plan x, x.late⟩]))
    (htime : x.time = w.clock.now) (hthrows : throws cfg x = false) :
    ∃ seen, Records (submitFlowUpdate cfg.central (centralCallbacks cfg)
        (planUpdate cfg plan x).packetIn (toCentral (requested cfg (planUpdate cfg plan x) seen w)))
      (toCentral (traced cfg x.pfx x.port x.seq x.ttl w)) := by
  have holder : ∀ v, lastAdmission w.log x.pfx = some v → v.seq < x.seq := by
    intro v hv
    obtain ⟨hvlog, hvp⟩ := mem_of_lastAdmission hv
    obtain ⟨a, ha, rfl⟩ := h.exists_plan hvlog
    exact (List.pairwise_append.mp hplan.increasing).2.2 a ha _ List.mem_cons_self hvp
  obtain ⟨r, hcall⟩ := exists_applyTraceUpdate_eq_ok hthrows w
  obtain ⟨r₀, hinner, -, accepted, heq⟩ := applyTraceUpdate_eq_ok hcall
  have htraced : traced cfg x.pfx x.port x.seq x.ttl w = r.2 := by
    simp only [traced, hcall]
  rw [htraced, heq]
  rcases applyTraceUpdate_cases hinner with
    ⟨hguard, -⟩ | ⟨ctl, s, -, hseq, hle, -⟩ | ⟨ctl, hguard, -, rfl⟩
  · -- the watermark is an earlier generation
    exfalso
    unfold passGuard at hguard
    split at hguard
    next hon =>
      have hmark := (hinv.order hon).watermark x.pfx
      rw [getHighestSeenSeq] at hmark
      split at hguard
      next high hhigh =>
        split at hguard
        next hle =>
          rw [hhigh] at hmark
          obtain ⟨v, hv, hvseq⟩ := Option.map_eq_some_iff.mp hmark.symm
          have hlt := holder v hv
          omega
        · cases hguard
      · cases hguard
    · cases hguard
  · -- so is the resident one
    obtain ⟨v, hres⟩ := hinv.temporary.resident_of_mem hseq
    have hvseq := Option.some.inj (hres.seq.symm.trans hseq)
    have hlt := holder v hres.last
    omega
  · obtain ⟨seen, rfl⟩ := exists_passGuard_eq hguard
    rw [h.candidate_eq htime]
    exact ⟨seen, rfl, rfl, rfl, rfl, rfl⟩

theorem onlyResident_requested (cfg : LoopConfig) (u : Admission)
    (seen : Std.TreeMap Name Nat) (w : LoopWorld ε) :
    OnlyResident u (requested cfg u seen w).ctl := by
  intro s hs
  have hstages := stages_stage cfg.temporary (temporaryCallbacks (ε := ε) cfg) u
    { w with ctl := { w.ctl with highestSeenSeq := seen } }
  have hseq := hstages.seq u.pfx
  have hexpiry := hstages.expiry u.pfx
  rw [if_pos rfl] at hseq hexpiry
  exact ⟨Option.some.inj (hs.symm.trans hseq), hexpiry⟩

/-- Every message so far belongs to an update before `u`. -/
structure Newest (u : Admission) (w : LoopWorld ε) : Prop where
  admitted : .admitted u ∈ w.log
  inFlight : ∀ b ∈ w.env.central.events, b.event.message.pfx = u.pfx →
    b.event.message.origin < u.origin
  seen : ∀ o ∈ w.env.history, (obsMessage o).pfx = u.pfx → (obsMessage o).origin < u.origin

theorem Newest.fits (h : Newest u w) {k : Nat} (hmessage : event.message = u.packetIn)
    (hstage : ∀ b ∈ w.env.central.events, k ≤ controlStage b.event) :
    Fits controlLanes k event w.env.central.events := by
  refine fits_of_newest (fun b hb hlane => ?_) hstage
  have hlane : b.event.message.pfx = event.message.pfx := hlane
  have hrank : b.event.message.origin < event.message.origin := by
    rw [hmessage] at hlane ⊢
    exact h.inFlight b hb hlane
  exact hrank

/-- The PacketIn of the newest update sets out. -/
theorem Settlement.enter (h : Settlement d plan (some u) w) (hplan : WellBehaved plan)
    (hinv : LoopInv cfg sw₀ w') (hnewest : Newest u w) (htime : u.time = w.clock.now)
    (hissued : ∀ b ∈ w.env.central.events, b.uid < w.clock.uid) (hdelayed : d.packetIn ≠ 0)
    (hemits : Emits [(toCentral w).clock.schedule d.packetIn (.acceptControl u.packetIn)] []
      (toCentral w) (toCentral w')) : Settlement d plan none w' := by
  have hevents : w'.env.central.events = w.env.central.events ++
      [(toCentral w).clock.schedule d.packetIn (.acceptControl u.packetIn)] := hemits.events
  have hhistory : w'.env.history = w.env.history := hemits.log.trans (List.append_nil _)
  have htimeline : OnTime d w' := by
    rw [OnTime, hevents, hhistory]
    refine Exchanges.mono ?_ hemits.mem_log (Nat.le_of_eq hemits.now.symm)
    refine h.timeline.push (u := u) (hnewest.fits rfl fun b _ => Nat.zero_le _) h.chron
      hnewest.admitted rfl ?_ (fun _ => hdelayed) (fun _ m hm hmp => hnewest.seen _ hm hmp)
      (fun _ m hm hmp => hnewest.seen _ hm hmp) hissued
    rw [htime]
    rfl
  refine h.emits hplan hinv hemits htimeline fun _ _ _ => Or.inr (Or.inl ?_)
  refine ⟨(toCentral w).clock.schedule d.packetIn (.acceptControl u.packetIn), ?_, rfl⟩
  rw [hevents]
  exact List.mem_append_right _ List.mem_cons_self

/-- The PacketIn of the newest update arrives at once. -/
theorem Newest.holds (h : Newest u w) (htimeline : OnTime d w) (htime : u.time = w.clock.now)
    (hprompt : d.packetIn = 0) : Holds d u (.acceptControl u.packetIn) w where
  admitted := h.admitted
  message := rfl
  now := by
    have harrival : d.arrival (.acceptControl u.packetIn) = 0 := hprompt
    rw [htime, harrival]
    rfl
  fits := h.fits rfl fun b hb => Nat.pos_of_ne_zero fun hzero =>
    htimeline.entered b hb hzero hprompt
  accepted _ m hm hmp := h.seen _ hm hmp
  applied _ m hm hmp := h.seen _ hm hmp

/-- Feeding one more Trace update keeps the settlement. -/
theorem Settlement.trace (h : Settlement d plan none w) (hlossless : Lossless cfg)
    (hinv : LoopInv cfg sw₀ w) {x : TraceInput}
    (hinv' : LoopInv cfg sw₀ (traced cfg x.pfx x.port x.seq x.ttl w))
    (hplan : WellBehaved (extendPlan cfg plan x)) (htime : x.time = w.clock.now)
    (htie : TieBreak d x w)
    (hlegs : throws cfg x = false →
      d.OnSubmit cfg.central (planUpdate cfg plan x).packetIn (toCentral w)) :
    Settlement d (extendPlan cfg plan x) none (traced cfg x.pfx x.port x.seq x.ttl w) := by
  cases hthrows : throws cfg x with
  | true =>
      rw [traced_of_throws hthrows, extendPlan, if_pos hthrows]
      exact h
  | false =>
      have hextend : extendPlan cfg plan x = plan ++ [⟨planUpdate cfg plan x, x.late⟩] := by
        rw [extendPlan, hthrows, if_neg Bool.false_ne_true]
      rw [hextend] at hplan ⊢
      obtain ⟨seen, hrecords⟩ := h.traced_eq hinv hplan htime hthrows
      have hlegs := hlegs hthrows
      have horigin : (planUpdate cfg plan x).origin =
          (admissions w.log (planUpdate cfg plan x).pfx).length :=
        (h.length_admissions x.pfx).symm
      obtain ⟨hnow, huid, henv, hlog⟩ := requested_frame cfg (planUpdate cfg plan x) seen w
      have honly := onlyResident_requested cfg (planUpdate cfg plan x) seen w
      have hevents : (requested cfg (planUpdate cfg plan x) seen w).env.central.events =
          w.env.central.events := by rw [henv]
      have hhistory : (requested cfg (planUpdate cfg plan x) seen w).env.history =
          w.env.history := by rw [henv]
      have hutime : (planUpdate cfg plan x).time =
          (requested cfg (planUpdate cfg plan x) seen w).clock.now := htime.trans hnow.symm
      have hadmit : Settlement d (plan ++ [⟨planUpdate cfg plan x, x.late⟩])
          (some (planUpdate cfg plan x)) (requested cfg (planUpdate cfg plan x) seen w) :=
        h.admit hinv ⟨htime, horigin, ⟨_, _, hlog⟩, hnow, hevents, hhistory⟩ htie
      have hseen : ∀ o ∈ w.env.history,
          Descends (requested cfg (planUpdate cfg plan x) seen w).log (obsMessage o) := by
        intro o ho
        rw [hlog]
        exact (hinv.joined.seen o ho).append _
      have hnewest : Newest (planUpdate cfg plan x)
          (requested cfg (planUpdate cfg plan x) seen w) := by
        refine ⟨?_, fun b hb hbp => ?_, fun o ho hop => ?_⟩
        · rw [hlog]
          exact List.mem_append_right _ List.mem_cons_self
        · rw [hevents] at hb
          exact h.numbered.origin_lt (hinv.joined.inFlight b hb) hbp horigin
        · rw [hhistory] at ho
          exact h.numbered.origin_lt (hinv.joined.seen o ho) hop horigin
      have hissued : ∀ b ∈ (requested cfg (planUpdate cfg plan x) seen w).env.central.events,
          b.uid < (requested cfg (planUpdate cfg plan x) seen w).clock.uid := by
        intro b hb
        rw [hevents] at hb
        exact Nat.lt_of_lt_of_le (hinv.central.queue.issued b hb) huid
      have hcentral : (toCentral (requested cfg (planUpdate cfg plan x) seen w)).ctl =
          w.env.central := congrArg LoopEnv.central henv
      generalize planUpdate cfg plan x = u at *
      generalize requested cfg u seen w = v at *
      have hnewer : cfg.central.generationGuardEnabled = true →
          ∀ st, (toCentral v).ctl.prefixStates[u.pfx]? = some st → st.hasAccepted = true →
            st.highestAccepted < u.seq := by
        intro hon
        rw [hcentral]
        refine hadmit.highestAccepted_lt hplan (hinv.central.guard hon) hseen hnewest.admitted ?_
        intro m hm hmp
        rw [← hhistory] at hm
        exact hnewest.seen _ hm hmp
      have hlegs' : d.OnSubmit cfg.central u.packetIn (toCentral v) := by
        have hclock : (toCentral v).clock.now = (toCentral w).clock.now := hnow
        have hdraws : (toCentral v).ctl.draws = (toCentral w).ctl.draws := by
          rw [hcentral]
          rfl
        unfold Legs.OnSubmit
        rw [hdraws, hclock]
        exact hlegs
      rcases outcome_submitFlowUpdate hlossless u hnewer hlegs' with
        ⟨hdelayed, hemits⟩ | ⟨hprompt, houtcome⟩
      · have hemits := hemits.trans hrecords.emits
        rw [List.append_nil, List.append_nil] at hemits
        exact hadmit.enter hplan hinv' hnewest hutime hissued hdelayed hemits
      · exact hadmit.outcome hplan hinv' (hnewest.holds hadmit.timeline hutime hprompt) hissued
          (fun _ hevent _ => by cases hevent) (fun _ => honly) (houtcome.records hrecords)

/-! ## Runs -/

/-- Without retries a timer of the local controller ends a lease and nothing else. -/
theorem fire_of_not_retrying (hlossless : Lossless cfg) (hinv : LoopInv cfg sw₀ w)
    (e : Scheduled LocalEvent) :
    (fire cfg.temporary (temporaryCallbacks cfg) e w).clock.now = e.ts ∧
      (fire cfg.temporary (temporaryCallbacks cfg) e w).log = w.log ∧
      (fire cfg.temporary (temporaryCallbacks cfg) e w).env = w.env := by
  unfold LocalRouteController.fire
  cases e.event with
  | expireEntryBySeq q s => exact ⟨rfl, rfl, rfl⟩
  | onControllerRetryTimeout q s =>
      have hretry : ¬Retrying cfg.temporary (temporaryCallbacks (ε := ε) cfg) :=
        fun hretry => hlossless.noRetries hretry.2
      have hnone : (LocalRouteController.take e w).ctl.pendingControllerRequests[q]? = none :=
        hinv.temporary.pending_of_not_retrying hretry q
      simp only [onControllerRetryTimeout, hnone]
      exact ⟨rfl, rfl, rfl⟩

theorem planned_sublist (cfg : LoopConfig) (feed : List TraceInput) (x : TraceInput) :
    (planned cfg feed).Sublist (planned cfg (feed ++ [x])) := by
  rw [planned_snoc, extendPlan]
  split
  · exact List.Sublist.refl _
  · exact List.sublist_append_left _ _

/-- Every fed run settles its updates. -/
theorem FedRun.settlement {w₀ : LoopWorld ε} {feed : List TraceInput}
    (hrun : FedRun cfg d w₀ feed w) (hlossless : Lossless cfg)
    (hguards : cfg.central.generationGuardEnabled = true →
      cfg.temporary.generationGuardEnabled = true)
    (hplan : WellBehaved (planned cfg feed)) : Settlement d (planned cfg feed) none w := by
  induction hrun with
  | start h =>
      obtain ⟨-, hlog⟩ := h.temporary
      obtain ⟨-, hevents, hhistory⟩ := h.central
      have hevents : w₀.env.central.events = [] := hevents
      have hhistory : w₀.env.history = [] := hhistory
      refine ⟨?_, ?_, ?_, List.Pairwise.nil, ?_, ?_, ?_, ?_, ?_⟩
      · rw [OnTime, hevents, hhistory]
        exact exchanges_nil d w₀.log _
      · rw [hlog]
        rfl
      · simp [Numbered, hlog, admissions]
      · simp [planned]
      · simp [hlog]
      · rintro u ⟨hu, -⟩
        rw [hlog] at hu
        cases hu
      · simp [hlog, lastAdmission, admissions]
      · simp [planned]
  | @trace feed v hbefore x htime htie hlegs ih =>
      have hsettled := ih (hplan.sublist (planned_sublist cfg feed x))
      have hafter : FedRun cfg d w₀ (feed ++ [x]) (traced cfg x.pfx x.port x.seq x.ttl v) :=
        .trace hbefore x htime htie hlegs
      rw [planned_snoc] at hplan ⊢
      exact hsettled.trace hlossless hbefore.loopRun.inv hafter.loopRun.inv hplan htime htie hlegs
  | @timer feed v hbefore e he hdue ih =>
      have hinv := hbefore.loopRun.inv
      obtain ⟨hnow, hlog, henv⟩ := fire_of_not_retrying hlossless hinv e
      refine (ih hplan).quiet ?_ hlog (by rw [henv]) (by rw [henv])
      rw [hnow]
      exact hinv.temporary.queue.due e he
  | message hbefore he hdue hlegs ih =>
      exact (ih hplan).fireCentral hplan hlossless hguards hbefore.loopRun.inv he hdue hlegs
  | findExact _ q ih => exact (ih hplan).quiet (Nat.le_refl _) rfl rfl rfl
  | findLongestPrefix _ name ih => exact (ih hplan).quiet (Nat.le_refl _) rfl rfl rfl
  | idle _ clock hnow huid hdue hdue' rest ih => exact (ih hplan).quiet hnow rfl rfl rfl

end Loop

end Statim
