import Statim.Engine.Loop
import Statim.Support.History

/-!
# Invariants of the closed loop

Each controller keeps its own invariant in the loop, since the other one uses
it through its interface only.  Across the two, every message and every flow
entry descends from an admission, the flow-table FIB is the replay of the
applied FlowMods, and an admitted generation leaves the local controller for
one of three reasons only.
-/

namespace Statim

open Support LocalRouteController

namespace Loop

variable {ε : Type} {cfg : LoopConfig} {w w' : LoopWorld ε}
  {c c' : FlowTableWorld (CentralEnv ε)} {m : ControlMessage} {p : Name} {u : Admission}
  {busy : Option (Name × Nat)}

/-! ## Each controller in the other's surroundings -/

/-- Without a completion callback the response handler is `acceptResponse`. -/
theorem handleControlResponse_eq {ω : Type} (cfg : LocalConfig) {cbs : LocalCallbacks ω}
    (hcomplete : cbs.complete = none) (m : ControlMessage) (w : LocalWorld ω) :
    handleControlResponse cfg cbs m w = acceptResponse cfg m w := by
  unfold handleControlResponse
  split
  next hsome => cases hcomplete.symm.trans hsome
  next => rfl

/-- The response handler leaves the clock and its surroundings alone. -/
theorem acceptResponse_frame {ω : Type} (cfg : LocalConfig) (m : ControlMessage)
    (w : LocalWorld ω) : (acceptResponse cfg m w).2.clock = w.clock ∧
      (acceptResponse cfg m w).2.env = w.env := by
  rcases acceptResponse_cases cfg m w with ⟨counters, heq⟩ | ⟨seq, -, -, -, -, -, heq⟩
  · rw [heq]
    exact ⟨rfl, rfl⟩
  · rw [heq]
    exact ⟨rfl, rfl⟩

theorem onSyncAck_eq (cfg : LoopConfig) (m : ControlMessage)
    (c : FlowTableWorld (CentralEnv ε)) :
    onSyncAck cfg m c = toCentral (acceptResponse cfg.temporary m (toTemporary c)).2 := by
  rw [onSyncAck, handleControlResponse_eq cfg.temporary rfl]

/-- Seen from the flow-table controller, a SyncAck changes its surroundings only. -/
theorem onSyncAck_frame (cfg : LoopConfig) (m : ControlMessage)
    (c : FlowTableWorld (CentralEnv ε)) : onSyncAck cfg m c = { c with
      env := (toCentral (acceptResponse cfg.temporary m (toTemporary c)).2).env } := by
  obtain ⟨hclock, henv⟩ := acceptResponse_frame cfg.temporary m (toTemporary c)
  rw [onSyncAck_eq]
  unfold toCentral
  rw [hclock, henv]
  rfl

theorem onFlowTableFlowMod_frame (cfg : LoopConfig) (m : ControlMessage)
    (c : FlowTableWorld (CentralEnv ε)) :
    ∃ switch applied, (onFlowTableFlowMod cfg m c).2 = { c with env := { c.env with
      switch := switch, flowTableUpdatesApplied := applied } } := by
  unfold onFlowTableFlowMod
  split
  · exact ⟨_, _, rfl⟩
  · exact ⟨_, _, rfl⟩

/-- The loop uses the flow-table controller through its interface. -/
theorem confined_centralCallbacks (cfg : LoopConfig) :
    FlowTableController.Confined cfg.central (centralCallbacks (ε := ε) cfg) where
  apply := by
    rintro f ⟨⟩ m c
    obtain ⟨switch, applied, heq⟩ := onFlowTableFlowMod_frame cfg m c
    rw [heq]
    exact .single (.other (Nat.le_refl c.clock.uid) _)
  syncAck := by
    rintro f ⟨⟩ m c
    rw [onSyncAck_frame]
    exact .single (.other (Nat.le_refl c.clock.uid) _)

/-- Seen from the local controller, the flow-table controller responds and
changes its surroundings. -/
theorem reenter_action (h : FlowTableController.Action (centralCallbacks cfg) m c c') :
    Reenter cfg.temporary (toTemporary c) (toTemporary c') := by
  have hother : ∀ {c' : FlowTableWorld (CentralEnv ε)}, c'.clock.now = c.clock.now →
      c.clock.uid ≤ c'.clock.uid → c'.env.ctl = c.env.ctl → c'.env.log = c.env.log →
      Reenter cfg.temporary (toTemporary c) (toTemporary c') := by
    intro c' hnow huid hctl hlog
    have hrefl : Reenter cfg.temporary (toTemporary c) (toTemporary c) := Reenter.refl _
    have hstep := hrefl.other huid (toTemporary c').env
    have heq : toTemporary c' = { toTemporary c with
        clock := { (toTemporary c).clock with uid := c'.clock.uid }
        env := (toTemporary c').env } := by
      have hclock : c'.clock = ⟨c.clock.now, c'.clock.uid⟩ := by rw [← hnow]
      unfold toTemporary
      rw [hctl, hlog]
      congr 1
    rw [heq]
    exact hstep
  cases h with
  | book => exact hother rfl (Nat.le_refl _) rfl rfl
  | schedule => exact hother rfl (Nat.le_succ _) rfl rfl
  | accept => exact hother rfl (Nat.le_refl _) rfl rfl
  | refuse hsink hanswer =>
      cases hsink
      obtain ⟨switch, applied, heq⟩ := onFlowTableFlowMod_frame cfg { m with type := .flowMod } c
      rw [heq]
      exact hother rfl (Nat.le_refl _) rfl rfl
  | apply hsink hanswer =>
      cases hsink
      obtain ⟨switch, applied, heq⟩ := onFlowTableFlowMod_frame cfg { m with type := .flowMod } c
      rw [heq]
      exact hother rfl (Nat.le_refl _) rfl rfl
  | ack hsync hlive =>
      cases hsync
      have hnote : Reenter cfg.temporary (toTemporary c) (toTemporary { c with
          log := c.log ++ [.acked c.clock.now { m with type := .syncAck }] }) :=
        hother rfl (Nat.le_refl _) rfl rfl
      simp only [onSyncAck, toTemporary_toCentral]
      rw [handleControlResponse_eq cfg.temporary rfl]
      exact hnote.respond _

theorem reenter_actions (h : FlowTableController.Actions (centralCallbacks cfg) m c c') :
    Reenter cfg.temporary (toTemporary c) (toTemporary c') := by
  induction h with
  | refl => exact Reenter.refl _
  | tail _ haction ih => exact ih.trans (reenter_action haction)

/-- The loop uses the local controller through its interface, and admits no update
from within. -/
theorem passive_temporaryCallbacks (cfg : LoopConfig) :
    Passive cfg.temporary (temporaryCallbacks (ε := ε) cfg) where
  request := by
    rintro f ⟨⟩ m w
    exact reenter_actions (FlowTableController.actions_submitFlowUpdate m (toCentral w))
  complete := by
    rintro f ⟨⟩

/-! ## Descent -/

/-- The message is the request of an admitted update, up to its type. -/
def Descends (log : List LocalObs) (m : ControlMessage) : Prop :=
  ∃ u ∈ admissions log m.pfx, m = { u.packetIn with type := m.type }

theorem Descends.congr {log log' : List LocalObs} (h : Descends log m)
    (hsame : ∀ p, admissions log' p = admissions log p) : Descends log' m := by
  unfold Descends at h ⊢
  rwa [hsame]

theorem Descends.append {log : List LocalObs} (h : Descends log m) (news : List LocalObs) :
    Descends (log ++ news) m := by
  obtain ⟨u, hu, heq⟩ := h
  refine ⟨u, ?_, heq⟩
  rw [admissions_append]
  exact List.mem_append_left _ hu

theorem Descends.withType {log : List LocalObs} (h : Descends log m)
    (type : ControlMessageType) : Descends log { m with type := type } := by
  obtain ⟨u, hu, heq⟩ := h
  refine ⟨u, hu, ?_⟩
  rw [heq]

theorem descends_packetIn {log : List LocalObs} (h : lastAdmission log p = some u) :
    Descends log u.packetIn := by
  obtain ⟨hmem, rfl⟩ := mem_of_lastAdmission h
  exact ⟨u, List.mem_of_getLast? h, rfl⟩

/-- All FlowMods applied, oldest first. -/
def appliedAll (history : List FlowTableObs) : List ControlMessage :=
  history.filterMap fun o =>
    match o with
    | .applied m => some m
    | _ => none

theorem appliedAll_append (history news : List FlowTableObs) :
    appliedAll (history ++ news) = appliedAll history ++ appliedAll news := by
  simp [appliedAll]

/-- The switch after the FlowMods were installed one after the other. -/
def replay (std : EntrySort) (mods : List ControlMessage) (sw : SwitchPipeline) :
    SwitchPipeline :=
  mods.foldl (fun sw m => sw.installFibEntry std m.nameHashes m.outputPort m.routeExpiry
    (some (m.pfx, m.origin))) sw

/-- The message that an observation of the flow-table controller is about. -/
def obsMessage : FlowTableObs → ControlMessage
  | .accepted m => m
  | .applied m => m
  | .acked _ m => m

/-- A completion names the latest admission at that moment, up to what the guard
compares. -/
def CompletesLatest (cfg : LocalConfig) (before : List LocalObs) : LocalObs → Prop
  | .completed _ ack seq expiry _ =>
    Descends before ack ∧ ack.routeExpiry = expiry ∧
      (seq = ack.seq ∨ (cfg.generationGuardEnabled = false ∧ ack.seq = 0)) ∧
      ∃ u, lastAdmission before ack.pfx = some u ∧ u.seq = seq ∧ u.routeExpiry = expiry
  | _ => True

/-- Why the latest admission of a prefix may have left the local controller. -/
def Settled (w : LoopWorld ε) (p : Name) (u : Admission) : Prop :=
  (∃ t ack expiry ports, .completed t ack u.seq expiry ports ∈ w.log ∧ ack.pfx = p) ∨
    (∃ t, .withdrawn t p u.seq ∈ w.log) ∨
    (0 < u.lifetime ∧ u.time + u.lifetime ≤ w.clock.now)

theorem Settled.mono (h : Settled w p u) (hlog : ∀ o ∈ w.log, o ∈ w'.log)
    (hnow : w.clock.now ≤ w'.clock.now) : Settled w' p u := by
  rcases h with ⟨t, ack, expiry, ports, hmem, hpfx⟩ | ⟨t, hmem⟩ | ⟨hlease, hpast⟩
  · exact Or.inl ⟨t, ack, expiry, ports, hlog _ hmem, hpfx⟩
  · exact Or.inr (Or.inl ⟨t, hlog _ hmem⟩)
  · refine Or.inr (Or.inr ⟨hlease, Int.le_trans hpast ?_⟩)
    exact Int.ofNat_le.mpr hnow

/-- What holds between the two controllers and the switch. -/
structure Joined (cfg : LoopConfig) (sw₀ : SwitchPipeline) (w : LoopWorld ε) : Prop where
  /-- Updates are submitted with the hashes of their prefix, and are numbered. -/
  admitted : ∀ p, ∀ u ∈ admissions w.log p,
    u.nameHashes = PacketHeader.hashesOf cfg.stdHash p ∧
      (admissions w.log p)[u.origin]? = some u
  requested : ∀ t m, .request t m ∈ w.log → Descends w.log m
  inFlight : ∀ e ∈ w.env.central.events, Descends w.log e.event.message
  seen : ∀ o ∈ w.env.history, Descends w.log (obsMessage o)
  switch : w.env.switch = replay cfg.std (appliedAll w.env.history) sw₀
  completions : Along (CompletesLatest cfg.temporary) w.log
  acked : ∀ t ack seq expiry ports, .completed t ack seq expiry ports ∈ w.log →
    .acked t ack ∈ w.env.history
  settled : ∀ p u, lastAdmission w.log p = some u →
    w.ctl.seqMap[p]? = some u.seq ∨ Settled w p u

variable {sw₀ : SwitchPipeline}

/-- Changes outside the logs, the queues and the switch. -/
theorem Joined.frame (h : Joined cfg sw₀ w) (hnow : w.clock.now ≤ w'.clock.now)
    (hlog : w'.log = w.log) (hevents : w'.env.central.events = w.env.central.events)
    (hhistory : w'.env.history = w.env.history) (hswitch : w'.env.switch = w.env.switch)
    (hseq : ∀ p u, lastAdmission w.log p = some u → w.ctl.seqMap[p]? = some u.seq →
      w'.ctl.seqMap[p]? = some u.seq ∨ Settled w' p u) : Joined cfg sw₀ w' where
  admitted := by
    rw [hlog]
    exact h.admitted
  requested := by
    rw [hlog]
    exact h.requested
  inFlight := by
    rw [hlog, hevents]
    exact h.inFlight
  seen := by
    rw [hlog, hhistory]
    exact h.seen
  switch := by
    rw [hswitch, hhistory]
    exact h.switch
  completions := by
    rw [hlog]
    exact h.completions
  acked := by
    rw [hlog, hhistory]
    exact h.acked
  settled p u hu := by
    rw [hlog] at hu
    rcases h.settled p u hu with hres | hset
    · exact hseq p u hu hres
    · exact Or.inr (hset.mono (by simp [hlog]) hnow)

/-- Changes that keep the resident generations as well. -/
theorem Joined.quiet (h : Joined cfg sw₀ w) (hnow : w.clock.now ≤ w'.clock.now)
    (hlog : w'.log = w.log) (henv : w'.env = w.env)
    (hseq : w'.ctl.seqMap = w.ctl.seqMap) : Joined cfg sw₀ w' :=
  h.frame hnow hlog (by rw [henv]) (by rw [henv]) (by rw [henv])
    fun _ _ _ hres => Or.inl (by rwa [hseq])

/-- One more observation of the local controller that is not an admission. -/
theorem Joined.note (h : Joined cfg sw₀ w) {o : LocalObs} (hlog : w'.log = w.log ++ [o])
    (hnow : w.clock.now ≤ w'.clock.now) (henv : w'.env = w.env)
    (hadm : ∀ p, admissions (w.log ++ [o]) p = admissions w.log p)
    (hrequest : ∀ t m, o = .request t m → Descends w.log m)
    (hlatest : CompletesLatest cfg.temporary w.log o)
    (hacked : ∀ t ack seq expiry ports, o = .completed t ack seq expiry ports →
      .acked t ack ∈ w.env.history)
    (hseq : ∀ p u, lastAdmission w.log p = some u → w.ctl.seqMap[p]? = some u.seq →
      w'.ctl.seqMap[p]? = some u.seq ∨ Settled w' p u) : Joined cfg sw₀ w' where
  admitted p := by
    rw [hlog, hadm]
    exact h.admitted p
  requested t m hm := by
    rw [hlog] at hm ⊢
    rcases List.mem_append.mp hm with hm | hm
    · exact (h.requested t m hm).append _
    · exact (hrequest t m (List.mem_singleton.mp hm).symm).append _
  inFlight e he := by
    rw [henv] at he
    rw [hlog]
    exact (h.inFlight e he).append _
  seen o' ho' := by
    rw [henv] at ho'
    rw [hlog]
    exact (h.seen o' ho').append _
  switch := by
    rw [henv]
    exact h.switch
  completions := by
    rw [hlog]
    exact h.completions.snoc hlatest
  acked t ack seq expiry ports hmem := by
    rw [hlog] at hmem
    rw [henv]
    rcases List.mem_append.mp hmem with hmem | hmem
    · exact h.acked t ack seq expiry ports hmem
    · exact hacked t ack seq expiry ports (List.mem_singleton.mp hmem).symm
  settled p u hu := by
    rw [lastAdmission, hlog, hadm] at hu
    rcases h.settled p u hu with hres | hset
    · exact hseq p u hu hres
    · refine Or.inr (hset.mono (fun o' ho' => ?_) hnow)
      rw [hlog]
      exact List.mem_append_left _ ho'

/-! ## Actions of the flow-table controller -/

/-- The flow-table controller acts: its history and its queue grow by messages that
descend from admissions, and the switch follows the history. -/
theorem Joined.extend (h : Joined cfg sw₀ w) (news : List FlowTableObs)
    (hnow : w.clock.now ≤ w'.clock.now) (hlog : w'.log = w.log)
    (hseq : w'.ctl.seqMap = w.ctl.seqMap) (hhistory : w'.env.history = w.env.history ++ news)
    (hnews : ∀ o ∈ news, Descends w.log (obsMessage o))
    (hevents : ∀ e ∈ w'.env.central.events, Descends w.log e.event.message)
    (hswitch : w'.env.switch = replay cfg.std (appliedAll news) w.env.switch) :
    Joined cfg sw₀ w' where
  admitted := by
    rw [hlog]
    exact h.admitted
  requested := by
    rw [hlog]
    exact h.requested
  inFlight := by
    rw [hlog]
    exact hevents
  seen o ho := by
    rw [hhistory] at ho
    rw [hlog]
    rcases List.mem_append.mp ho with ho | ho
    · exact h.seen o ho
    · exact hnews o ho
  switch := by
    rw [hswitch, h.switch, hhistory, appliedAll_append]
    exact (List.foldl_append).symm
  completions := by
    rw [hlog]
    exact h.completions
  acked t ack seq expiry ports hmem := by
    rw [hlog] at hmem
    rw [hhistory]
    exact List.mem_append_left _ (h.acked t ack seq expiry ports hmem)
  settled p u hu := by
    rw [hlog] at hu
    rcases h.settled p u hu with hres | hset
    · exact Or.inl (by rwa [hseq])
    · exact Or.inr (hset.mono (by simp [hlog]) hnow)

/-- A response that the local controller accepts completes its latest admission. -/
theorem Joined.acceptResponse (h : Joined cfg sw₀ w)
    (hinv : LocalInv cfg.temporary (temporaryCallbacks cfg) busy w) (hm : Descends w.log m)
    (hacked : .acked w.clock.now m ∈ w.env.history) :
    Joined cfg sw₀ (acceptResponse cfg.temporary m w).2 := by
  rcases acceptResponse_cases cfg.temporary m w with
    ⟨counters, heq⟩ | ⟨seq, htype, hseq, hguard, hexpiry, hlive, heq⟩
  · rw [heq]
    exact h.quiet (Nat.le_refl _) rfl rfl rfl
  · rw [heq]
    obtain ⟨u, hres⟩ := hinv.resident_of_mem hseq
    obtain rfl : u.seq = seq := Option.some.inj (hres.seq.symm.trans hseq)
    rw [hres.expiry, Option.getD_some] at hexpiry
    refine h.note rfl (Nat.le_refl _) rfl (fun q => by simp [admissions])
      (fun t m' ho => by cases ho) ?_ ?_ ?_
    · exact ⟨hm, rfl, hguard, u, hres.last, rfl, hexpiry.symm⟩
    · rintro t ack seq expiry ports ⟨⟩
      exact hacked
    · intro q v hv hresident
      by_cases hq : m.pfx = q
      · subst hq
        obtain rfl : u = v := Option.some.inj (hres.last.symm.trans hv)
        exact Or.inr (Or.inl ⟨_, m, _, _, List.mem_append_right _ List.mem_cons_self, rfl⟩)
      · exact Or.inl (by simpa [retire, Std.TreeMap.getElem?_erase, hq] using hresident)

theorem Joined.action (h : Joined cfg sw₀ (toTemporary c))
    (hinv : LocalInv cfg.temporary (temporaryCallbacks cfg) busy (toTemporary c))
    (hm : Descends c.env.log m)
    (haction : FlowTableController.Action (centralCallbacks cfg) m c c') :
    Joined cfg sw₀ (toTemporary c') := by
  cases haction with
  | book states counters draws =>
      exact h.extend [] (Nat.le_refl _) rfl rfl (List.append_nil _).symm (by simp)
        h.inFlight rfl
  | schedule delay hevent =>
      refine h.extend [] (Nat.le_refl _) rfl rfl (List.append_nil _).symm (by simp)
        (fun e he => ?_) rfl
      rcases List.mem_append.mp he with he | he
      · exact h.inFlight e he
      · rw [List.mem_singleton.mp he, Clock.schedule_event, hevent]
        exact hm
  | accept =>
      refine h.extend [.accepted m] (Nat.le_refl _) rfl rfl rfl ?_ h.inFlight rfl
      rintro o (_ | ⟨_, ⟨⟩⟩)
      exact hm
  | refuse hsink hanswer =>
      cases hsink
      have hsame : (onFlowTableFlowMod cfg { m with type := .flowMod } c).2 = c := by
        unfold onFlowTableFlowMod at hanswer ⊢
        split at hanswer
        next hexpired => rw [if_pos hexpired]
        next => cases hanswer
      rwa [hsame]
  | apply hsink hanswer =>
      cases hsink
      have hlive : ControlMessage.isExpiredAt { m with type := .flowMod } c.clock.now ≠ true := by
        intro hexpired
        rw [onFlowTableFlowMod, if_pos hexpired] at hanswer
        cases hanswer
      rw [onFlowTableFlowMod, if_neg hlive]
      refine h.extend [.applied { m with type := .flowMod }] (Nat.le_refl _) rfl rfl
        rfl ?_ h.inFlight rfl
      rintro o (_ | ⟨_, ⟨⟩⟩)
      exact hm.withType _
  | ack hsync hlive =>
      cases hsync
      simp only [onSyncAck, toTemporary_toCentral]
      rw [handleControlResponse_eq cfg.temporary rfl]
      have hnoted : Joined cfg sw₀ (toTemporary { c with
          log := c.log ++ [.acked c.clock.now { m with type := .syncAck }] }) := by
        refine h.extend [.acked c.clock.now { m with type := .syncAck }]
          (Nat.le_refl _) rfl rfl rfl ?_ h.inFlight rfl
        rintro o (_ | ⟨_, ⟨⟩⟩)
        exact hm.withType _
      have hinv' : LocalInv cfg.temporary (temporaryCallbacks cfg) busy (toTemporary { c with
          log := c.log ++ [.acked c.clock.now { m with type := .syncAck }] }) :=
        hinv.bookkeeping _ (fun _ => rfl) (Nat.le_refl _) _
      refine hnoted.acceptResponse hinv' (hm.withType _) ?_
      exact List.mem_append_right _ List.mem_cons_self

theorem Joined.actions (h : Joined cfg sw₀ (toTemporary c))
    (hinv : LocalInv cfg.temporary (temporaryCallbacks cfg) busy (toTemporary c))
    (hm : Descends c.env.log m)
    (hactions : FlowTableController.Actions (centralCallbacks cfg) m c c') :
    Joined cfg sw₀ (toTemporary c') := by
  induction hactions with
  | refl => exact h
  | tail hbefore haction ih =>
      have hreenter := reenter_actions hbefore
      refine ih.action (hreenter.inv hinv) ?_ haction
      exact Descends.congr hm hreenter.admissions

/-! ## Actions of the local controller -/

/-- A request goes out with the payload of an admission. -/
theorem Joined.dispatch (h : Joined cfg sw₀ w)
    (hinv : LocalInv cfg.temporary (temporaryCallbacks cfg) busy w) (hm : Descends w.log m) :
    Joined cfg sw₀ (dispatch (temporaryCallbacks cfg) m w) := by
  have hrequest : Joined cfg sw₀ { w with log := w.log ++ [.request w.clock.now m] } := by
    refine h.note rfl (Nat.le_refl _) rfl (fun q => by simp [admissions]) ?_ trivial
      (fun _ _ _ _ _ ho => by cases ho) fun _ _ _ hres => Or.inl hres
    rintro t m' ⟨⟩
    exact hm
  have hinv' : LocalInv cfg.temporary (temporaryCallbacks cfg) busy
      { w with log := w.log ++ [.request w.clock.now m] } :=
    hinv.bookkeeping _ (fun q => lastAdmission_request _ _ _ q) (Nat.le_refl _) _
  exact Joined.actions (c := toCentral { w with log := w.log ++ [.request w.clock.now m] })
    hrequest hinv' (hm.append _) (FlowTableController.actions_submitFlowUpdate m _)

theorem stage_frame {ω : Type} (cfg : LocalConfig) (cbs : LocalCallbacks ω) (u : Admission)
    (w : LocalWorld ω) :
    (stage cfg cbs u w).env = w.env ∧ w.clock.uid ≤ (stage cfg cbs u w).clock.uid := by
  have hentered : (entered u w).env = w.env ∧ w.clock.uid ≤ (entered u w).clock.uid := by
    unfold entered restartLifetimeTimer
    split
    · exact ⟨rfl, Nat.le_succ _⟩
    · exact ⟨rfl, Nat.le_refl _⟩
  by_cases hretry : Retrying cfg cbs
  · obtain ⟨counters, heq⟩ := stage_of_retrying hretry u w
    rw [heq]
    exact ⟨hentered.1, Nat.le_succ_of_le hentered.2⟩
  · obtain ⟨counters, heq⟩ := stage_of_not_retrying hretry u w
    rw [heq]
    exact hentered

/-- An admission joins the loop with the next number of its prefix. -/
theorem Joined.stage (h : Joined cfg sw₀ w)
    (hhashes : u.nameHashes = PacketHeader.hashesOf cfg.stdHash u.pfx)
    (horigin : u.origin = (admissions w.log u.pfx).length) :
    Joined cfg sw₀ (stage cfg.temporary (temporaryCallbacks cfg) u w) := by
  have hs := stages_stage cfg.temporary (temporaryCallbacks (ε := ε) cfg) u w
  have henv := (stage_frame cfg.temporary (temporaryCallbacks cfg) u w).1
  refine ⟨fun q v hv => ?_, fun t m hm => ?_, fun e he => ?_, fun o ho => ?_, ?_, ?_, ?_, ?_⟩
  · rw [hs.log, admissions_append] at hv ⊢
    rcases List.mem_append.mp hv with hv | hv
    · obtain ⟨hhash, hnum⟩ := h.admitted q v hv
      exact ⟨hhash, List.getElem?_append_left (List.getElem?_eq_some_iff.mp hnum).1 ▸ hnum⟩
    · obtain ⟨hmem, rfl⟩ := mem_admissions.mp hv
      obtain rfl : v = u := by simpa using hmem
      have hone : admissions [.admitted v] v.pfx = [v] := by simp [admissions]
      refine ⟨hhashes, ?_⟩
      rw [hone, horigin, List.getElem?_append_right (Nat.le_refl _), Nat.sub_self]
      rfl
  · rw [hs.log] at hm ⊢
    exact (h.requested t m (by simpa using hm)).append _
  · rw [henv] at he
    rw [hs.log]
    exact (h.inFlight e he).append _
  · rw [henv] at ho
    rw [hs.log]
    exact (h.seen o ho).append _
  · rw [henv]
    exact h.switch
  · rw [hs.log]
    exact h.completions.snoc trivial
  · intro t ack seq expiry ports hmem
    rw [hs.log] at hmem
    rw [henv]
    exact h.acked t ack seq expiry ports (by simpa using hmem)
  · intro q v hv
    rw [hs.log, lastAdmission_admitted] at hv
    rw [hs.seq]
    by_cases hq : u.pfx = q
    · rw [if_pos hq] at hv ⊢
      exact Or.inl (congrArg (Option.map Admission.seq) hv)
    · rw [if_neg hq] at hv ⊢
      rcases h.settled q v hv with hres | hset
      · exact Or.inl hres
      · refine Or.inr (hset.mono (fun o ho => ?_) (Nat.le_of_eq hs.now.symm))
        rw [hs.log]
        exact List.mem_append_left _ ho

/-! ## Steps of the local controller -/

theorem Joined.rescheduleRetry (h : Joined cfg sw₀ w) (p : Name) (s : Nat) :
    Joined cfg sw₀ (rescheduleRetry cfg.temporary p s w) := by
  unfold LocalRouteController.rescheduleRetry
  split
  · split
    · exact h.quiet (Nat.le_refl _) rfl rfl rfl
    · exact h
  · exact h

/-- The lifetime timer runs at the deadline of the generation it removes. -/
theorem Joined.expire
    (hinv : LocalInv cfg.temporary (temporaryCallbacks cfg) none w)
    {e : Scheduled LocalEvent} (he : e ∈ w.ctl.events) {s : Nat}
    (hevent : e.event = .expireEntryBySeq p s) (htake : Joined cfg sw₀ (take e w)) :
    Joined cfg sw₀ { take e w with ctl := expireEntryBySeq p s (take e w).ctl } := by
  refine htake.frame (Nat.le_refl _) rfl rfl rfl rfl fun q v hv hresident => ?_
  simp only [seqMap_expireEntryBySeq]
  split
  swap
  · exact Or.inl hresident
  by_cases hq : p = q
  swap
  · exact Or.inl (by simpa [Std.TreeMap.getElem?_erase, hq] using hresident)
  subst hq
  obtain ⟨u, hres, -, hlease, hts, -⟩ := hinv.resident_of_expire he hevent
  obtain rfl : u = v := Option.some.inj (hres.last.symm.trans hv)
  refine Or.inr (Or.inr (Or.inr ⟨hlease, ?_⟩))
  have hdeadline : (e.ts : Int) = u.time + u.lifetime := by
    rw [hts, Int.natCast_add, Int.toNat_of_nonneg (Int.le_of_lt hlease)]
  exact Int.le_of_eq hdeadline.symm

theorem Joined.onControllerRetryTimeout
    (hinv : LocalInv cfg.temporary (temporaryCallbacks cfg) none w)
    {e : Scheduled LocalEvent} (he : IsNext e w.ctl.events) {s : Nat}
    (hevent : e.event = .onControllerRetryTimeout p s) (htake : Joined cfg sw₀ (take e w)) :
    Joined cfg sw₀
      (onControllerRetryTimeout cfg.temporary (temporaryCallbacks cfg) p s (take e w)) := by
  have hbusy := hinv.take_retry he hevent
  obtain ⟨hretry, u, hres, rfl, -⟩ := hinv.resident_of_retry he.1 hevent
  obtain rfl : u.pfx = p := hres.pfx
  obtain ⟨pending, hstored, hseq, hmsg, -⟩ := hres.pending.1 hretry
  have hstored' : (take e w).ctl.pendingControllerRequests[u.pfx]? = some pending := hstored
  have hseq' : (take e w).ctl.seqMap[u.pfx]? = some u.seq := hres.seq
  unfold LocalRouteController.onControllerRetryTimeout
  simp only [hstored']
  rw [if_neg (not_not.mpr hseq), if_neg (not_not.mpr hseq')]
  split
  next hleft =>
    have hspent := hbusy.spendRetry hstored' hleft { (take e w).ctl.counters with
      controllerRetries := (take e w).ctl.counters.controllerRetries + 1
      controlPackets := (take e w).ctl.counters.controlPackets + 1 }
    refine Joined.rescheduleRetry (Joined.dispatch ?_ hspent ?_) u.pfx u.seq
    · exact htake.quiet (Nat.le_refl _) rfl rfl rfl
    · rw [hmsg]
      exact descends_packetIn hres.last
  next =>
    refine htake.note rfl (Nat.le_refl _) rfl (fun q => by simp [admissions])
      (fun t m ho => by cases ho) trivial (fun _ _ _ _ _ ho => by cases ho) ?_
    intro q v hv hresident
    by_cases hq : u.pfx = q
    · subst hq
      obtain rfl : u = v := Option.some.inj (hres.last.symm.trans hv)
      exact Or.inr (Or.inr (Or.inl ⟨_, List.mem_append_right _ List.mem_cons_self⟩))
    · exact Or.inl (by simpa [Std.TreeMap.getElem?_erase, hq] using hresident)

theorem Joined.fire (h : Joined cfg sw₀ w)
    (hinv : LocalInv cfg.temporary (temporaryCallbacks cfg) none w)
    {e : Scheduled LocalEvent} (he : IsNext e w.ctl.events) :
    Joined cfg sw₀ (fire cfg.temporary (temporaryCallbacks cfg) e w) := by
  have htake : Joined cfg sw₀ (take e w) := h.quiet (hinv.queue.due e he.1) rfl rfl rfl
  unfold LocalRouteController.fire
  cases hevent : e.event with
  | expireEntryBySeq p s => exact Joined.expire hinv he.1 hevent htake
  | onControllerRetryTimeout p s => exact Joined.onControllerRetryTimeout hinv he hevent htake

/-- What a call of `StatefulForwarder::applyTraceUpdate` does. -/
theorem applyTraceUpdate_eq_ok {port seq : Nat} {ttl : Int} {r : Bool × LoopWorld ε}
    (h : applyTraceUpdate cfg p port seq ttl w = .ok r) :
    ∃ r₀, LocalRouteController.applyTraceUpdate cfg.temporary (temporaryCallbacks cfg) p
        (PacketHeader.hashesOf cfg.stdHash p) (min p.length nameHashCount) port seq ttl w =
          .ok r₀ ∧ r.1 = r₀.1 ∧
      ∃ accepted, r.2 = { r₀.2 with env := { r₀.2.env with
        traceUpdatesAccepted := accepted } } := by
  unfold applyTraceUpdate at h
  split at h
  · cases h
  next w₁ hcall =>
    cases h
    exact ⟨_, hcall, rfl, w₁.env.traceUpdatesAccepted, rfl⟩
  next w₁ hcall =>
    cases h
    exact ⟨_, hcall, rfl, _, rfl⟩

theorem Joined.applyTraceUpdate (h : Joined cfg sw₀ w)
    (hinv : LocalInv cfg.temporary (temporaryCallbacks cfg) none w) {port seq : Nat}
    {ttl : Int} {r : Bool × LoopWorld ε}
    (hr : applyTraceUpdate cfg p port seq ttl w = .ok r) : Joined cfg sw₀ r.2 := by
  obtain ⟨r₀, hcall, -, accepted, hr⟩ := applyTraceUpdate_eq_ok hr
  have hcalled : Joined cfg sw₀ r₀.2 := by
    rcases applyTraceUpdate_cases hcall with
      ⟨-, rfl⟩ | ⟨ctl, s, hguard, -, -, rfl⟩ | ⟨ctl, hguard, -, rfl⟩
    · exact h.quiet (Nat.le_refl _) rfl rfl rfl
    · obtain ⟨seen, rfl⟩ := exists_passGuard_eq hguard
      exact h.quiet (Nat.le_refl _) rfl rfl rfl
    · obtain ⟨seen, rfl⟩ := exists_passGuard_eq hguard
      have hmarked := hinv.watermark w.ctl.counters seen
      have hjoined : Joined cfg sw₀ { w with ctl := { w.ctl with highestSeenSeq := seen } } :=
        h.quiet (Nat.le_refl _) rfl rfl rfl
      refine Joined.dispatch (hjoined.stage rfl rfl) (hmarked.stage rfl) ?_
      refine descends_packetIn (p := p) ?_
      rw [(stages_stage cfg.temporary (temporaryCallbacks cfg) _ _).log, lastAdmission_admitted]
      exact if_pos rfl
  rw [hr]
  exact hcalled.frame (Nat.le_refl _) rfl rfl rfl rfl fun _ _ _ hres => Or.inl hres

/-! ## The loop refines each controller -/

/-- What a callback does is a run of the local controller. -/
theorem localSteps_of_reenter (h : Reenter cfg.temporary w w')
    (hinv : LocalInv cfg.temporary (temporaryCallbacks cfg) none w) :
    Relation.ReflTransGen (LocalStep cfg.temporary (temporaryCallbacks cfg)) w w' := by
  induction h with
  | refl => exact .refl
  | @respond v m _ ih =>
      have hstep : LocalStep cfg.temporary (temporaryCallbacks cfg) v
          (handleControlResponse cfg.temporary (temporaryCallbacks cfg) m v).2 := .respond v m
      rw [handleControlResponse_eq cfg.temporary rfl] at hstep
      exact ih.tail hstep
  | exact p _ ih => exact ih.tail (.findExact _ p)
  | longest name _ ih => exact ih.tail (.findLongestPrefix _ name)
  | @other v uid huid env hbefore ih =>
      have hdue : ∀ e ∈ v.ctl.events, v.clock.now ≤ e.ts := (hbefore.inv hinv).queue.due
      have hidle : LocalStep cfg.temporary (temporaryCallbacks cfg) v
          { v with clock := ⟨v.clock.now, uid⟩, env := env } :=
        .idle ⟨v.clock.now, uid⟩ (Nat.le_refl _) huid hdue env
      exact ih.tail hidle

/-- Taking an event of the flow-table controller is idle time for the local one. -/
theorem localStep_take {e : Scheduled FlowTableEvent}
    (hinv : FlowTableController.FlowTableInv cfg.central (toCentral w))
    (he : e ∈ w.env.central.events) (hdue : IsDue w e.key) :
    LocalStep cfg.temporary (temporaryCallbacks cfg) w
      (toTemporary (FlowTableController.take e (toCentral w))) := by
  have hdue' : ∀ e' ∈ w.ctl.events, e.ts ≤ e'.ts := by
    intro e' he'
    exact (hdue.1 e' he').fst_le
  have hidle : LocalStep cfg.temporary (temporaryCallbacks cfg) w { w with
      clock := ⟨e.ts, w.clock.uid⟩
      env := (toTemporary (FlowTableController.take e (toCentral w))).env } :=
    .idle ⟨e.ts, w.clock.uid⟩ (hinv.queue.due e he) (Nat.le_refl _) hdue' _
  exact hidle

/-- Every step of the loop is a run of the local controller in its surroundings. -/
theorem localSteps_of_loopStep
    (hlocal : LocalInv cfg.temporary (temporaryCallbacks cfg) none w)
    (hcentral : FlowTableController.FlowTableInv cfg.central (toCentral w))
    (hstep : LoopStep cfg w w') :
    Relation.ReflTransGen (LocalStep cfg.temporary (temporaryCallbacks cfg)) w w' := by
  cases hstep with
  | trace hr =>
      obtain ⟨r₀, hcall, -, accepted, heq⟩ := applyTraceUpdate_eq_ok hr
      have hcalled := hlocal.applyTraceUpdate (passive_temporaryCallbacks cfg) hcall
      rw [heq]
      refine (Relation.ReflTransGen.single (LocalStep.trace hcall)).tail ?_
      exact LocalStep.idle _ (Nat.le_refl _) (Nat.le_refl _) hcalled.queue.due _
  | fireTemporary he hdue => exact .single (.fire ⟨he, hdue.1⟩)
  | @fireCentral e he hdue =>
      have htake := localStep_take hcentral he hdue
      refine (Relation.ReflTransGen.single htake).trans (localSteps_of_reenter ?_ ?_)
      · exact reenter_actions (FlowTableController.actions_handle e.event _)
      · exact hlocal.step (passive_temporaryCallbacks cfg) htake
  | @duplicate e he delay =>
      refine localSteps_of_reenter ?_ hlocal
      exact reenter_action (c := toCentral w) (m := e.event.message) (.schedule delay rfl)
  | findExact pfx => exact .single (.findExact _ pfx)
  | findLongestPrefix name => exact .single (.findLongestPrefix _ name)
  | idle clock hnow huid hdue hdue' rest => exact .single (.idle _ hnow huid hdue _)

/-! ## The flow-table controller along the loop -/

theorem centralInv_quiet (h : FlowTableController.FlowTableInv cfg.central (toCentral w))
    (hnow : w'.clock.now = w.clock.now) (huid : w.clock.uid ≤ w'.clock.uid)
    (henv : w'.env = w.env) :
    FlowTableController.FlowTableInv cfg.central (toCentral w') := by
  have hcentral : (toCentral w').ctl = (toCentral w).ctl := congrArg LoopEnv.central henv
  exact h.quiet hnow huid (by rw [hcentral]) (by rw [hcentral]) (congrArg LoopEnv.history henv)

theorem centralInv_dispatch (h : FlowTableController.FlowTableInv cfg.central (toCentral w))
    (m : ControlMessage) : FlowTableController.FlowTableInv cfg.central
      (toCentral (dispatch (temporaryCallbacks cfg) m w)) := by
  have hnoted : FlowTableController.FlowTableInv cfg.central
      (toCentral { w with log := w.log ++ [.request w.clock.now m] }) :=
    centralInv_quiet h rfl (Nat.le_refl _) rfl
  exact hnoted.submitFlowUpdate (confined_centralCallbacks cfg).syncAckRespects m

theorem centralInv_rescheduleRetry
    (h : FlowTableController.FlowTableInv cfg.central (toCentral w)) (p : Name) (s : Nat) :
    FlowTableController.FlowTableInv cfg.central
      (toCentral (rescheduleRetry cfg.temporary p s w)) := by
  unfold rescheduleRetry
  split
  · split
    · exact centralInv_quiet h rfl (Nat.le_succ _) rfl
    · exact h
  · exact h

theorem centralInv_elapse (h : FlowTableController.FlowTableInv cfg.central (toCentral w))
    (hnow : w.clock.now ≤ w'.clock.now) (huid : w.clock.uid ≤ w'.clock.uid)
    (hdue : ∀ e ∈ w.env.central.events, w'.clock.now ≤ e.ts)
    (hcentral : w'.env.central = w.env.central) (hhistory : w'.env.history = w.env.history) :
    FlowTableController.FlowTableInv cfg.central (toCentral w') := by
  have hidle : FlowTableController.FlowTableStep cfg.central (centralCallbacks cfg) (toCentral w)
      { toCentral w with clock := w'.clock, env := (toCentral w').env } :=
    .idle hnow huid hdue _
  have heq : toCentral w' = { toCentral w with clock := w'.clock, env := (toCentral w').env } := by
    unfold toCentral
    rw [hcentral, hhistory]
  rw [heq]
  exact h.step (confined_centralCallbacks cfg) hidle

theorem centralInv_applyTraceUpdate
    (h : FlowTableController.FlowTableInv cfg.central (toCentral w)) {port seq : Nat}
    {ttl : Int} {r : Bool × LoopWorld ε}
    (hr : applyTraceUpdate cfg p port seq ttl w = .ok r) :
    FlowTableController.FlowTableInv cfg.central (toCentral r.2) := by
  obtain ⟨r₀, hcall, -, accepted, heq⟩ := applyTraceUpdate_eq_ok hr
  have hcalled : FlowTableController.FlowTableInv cfg.central (toCentral r₀.2) := by
    rcases applyTraceUpdate_cases hcall with
      ⟨-, rfl⟩ | ⟨ctl, s, -, -, -, rfl⟩ | ⟨ctl, -, -, rfl⟩
    · exact centralInv_quiet h rfl (Nat.le_refl _) rfl
    · exact centralInv_quiet h rfl (Nat.le_refl _) rfl
    · refine centralInv_dispatch ?_ _
      have hmarked : FlowTableController.FlowTableInv cfg.central
          (toCentral { w with ctl := ctl }) := centralInv_quiet h rfl (Nat.le_refl _) rfl
      obtain ⟨henv, huid⟩ := stage_frame cfg.temporary (temporaryCallbacks (ε := ε) cfg) _ _
      exact centralInv_quiet hmarked (stages_stage _ _ _ _).now huid henv
  rw [heq]
  exact hcalled.quiet rfl (Nat.le_refl _) rfl rfl rfl

theorem centralInv_fire (h : FlowTableController.FlowTableInv cfg.central (toCentral w))
    (hlocal : LocalInv cfg.temporary (temporaryCallbacks cfg) none w)
    {e : Scheduled LocalEvent} (he : e ∈ w.ctl.events) (hdue : IsDue w e.key) :
    FlowTableController.FlowTableInv cfg.central
      (toCentral (fire cfg.temporary (temporaryCallbacks cfg) e w)) := by
  have htake : FlowTableController.FlowTableInv cfg.central (toCentral (take e w)) := by
    refine centralInv_elapse h (hlocal.queue.due e he) (Nat.le_refl _) (fun e' he' => ?_) rfl rfl
    exact (hdue.2 e' he').fst_le
  unfold LocalRouteController.fire
  cases e.event with
  | expireEntryBySeq p s => exact centralInv_quiet htake rfl (Nat.le_refl _) rfl
  | onControllerRetryTimeout p s =>
      simp only [onControllerRetryTimeout]
      split
      · exact htake
      split_ifs
      · exact htake
      · exact centralInv_quiet htake rfl (Nat.le_refl _) rfl
      · refine centralInv_rescheduleRetry (centralInv_dispatch ?_ _) p s
        exact centralInv_quiet htake rfl (Nat.le_refl _) rfl
      · exact centralInv_quiet htake rfl (Nat.le_refl _) rfl

/-! ## Runs -/

/-- The invariant of the loop between its events. -/
structure LoopInv (cfg : LoopConfig) (sw₀ : SwitchPipeline) (w : LoopWorld ε) : Prop where
  temporary : LocalInv cfg.temporary (temporaryCallbacks cfg) none w
  order : cfg.temporary.generationGuardEnabled = true → GuardedInv w
  central : FlowTableController.FlowTableInv cfg.central (toCentral w)
  joined : Joined cfg sw₀ w

theorem LoopInv.initial (h : IsInitial cfg w) : LoopInv cfg w.env.switch w where
  temporary := LocalInv.initial h.temporary
  order hon := LocalReachable.guardedInv hon (passive_temporaryCallbacks cfg).confined
    ⟨w, h.temporary, .refl⟩
  central := FlowTableController.FlowTableInv.initial h.central
  joined := by
    obtain ⟨-, hlog⟩ := h.temporary
    obtain ⟨-, hevents, hhistory⟩ := h.central
    have hevents : w.env.central.events = [] := hevents
    have hhistory : w.env.history = [] := hhistory
    constructor
    · simp [hlog, admissions]
    · simp [hlog]
    · simp [hevents]
    · simp [hhistory]
    · rw [hhistory]
      rfl
    · rw [hlog]
      exact Along.nil
    · simp [hlog]
    · simp [hlog, lastAdmission, admissions]

theorem LoopInv.step (h : LoopInv cfg sw₀ w) (hstep : LoopStep cfg w w') :
    LoopInv cfg sw₀ w' := by
  have hlocal := localSteps_of_loopStep h.temporary h.central hstep
  have hpassive := passive_temporaryCallbacks (ε := ε) cfg
  refine ⟨?_, fun hon => ?_, ?_, ?_⟩
  · exact invariant_of_steps (LocalInv cfg.temporary (temporaryCallbacks cfg) none) h.temporary
      (fun _ _ ha hab => ha.step hpassive hab) hlocal
  · exact invariant_of_steps GuardedInv (h.order hon)
      (fun _ _ ha hab => ha.step hon hpassive.confined hab) hlocal
  · cases hstep with
    | trace hr => exact centralInv_applyTraceUpdate h.central hr
    | fireTemporary he hdue => exact centralInv_fire h.central h.temporary he hdue
    | @fireCentral e he hdue =>
        refine h.central.fire (confined_centralCallbacks cfg) he fun e' he' => ?_
        exact (hdue.2 e' he').fst_le
    | duplicate he delay =>
        refine h.central.schedule delay (fun m hm => ?_) fun hon m hm => ?_
        · exact h.central.acks _ he m hm
        · exact (h.central.guard hon).flows _ he m hm
    | findExact pfx => exact centralInv_quiet h.central rfl (Nat.le_refl _) rfl
    | findLongestPrefix name => exact centralInv_quiet h.central rfl (Nat.le_refl _) rfl
    | idle clock hnow huid hdue hdue' rest =>
        exact centralInv_elapse h.central hnow huid hdue' rfl rfl
  · cases hstep with
    | trace hr => exact h.joined.applyTraceUpdate h.temporary hr
    | fireTemporary he hdue => exact h.joined.fire h.temporary ⟨he, hdue.1⟩
    | @fireCentral e he hdue =>
        have htake := localStep_take h.central he hdue
        have hjoined : Joined cfg sw₀ (toTemporary (FlowTableController.take e (toCentral w))) := by
          refine h.joined.extend [] (h.central.queue.due e he) rfl rfl
            (List.append_nil _).symm (by simp) (fun e' he' => ?_) rfl
          exact h.joined.inFlight e' (mem_cancel.mp he').1
        refine hjoined.actions (h.temporary.step hpassive htake) ?_
          (FlowTableController.actions_handle e.event _)
        exact h.joined.inFlight e he
    | @duplicate e he delay =>
        exact h.joined.action (c := toCentral w) h.temporary (h.joined.inFlight e he)
          (.schedule delay rfl)
    | findExact pfx => exact h.joined.quiet (Nat.le_refl _) rfl rfl rfl
    | findLongestPrefix name => exact h.joined.quiet (Nat.le_refl _) rfl rfl rfl
    | idle clock hnow huid hdue hdue' rest =>
        exact h.joined.frame hnow rfl rfl rfl rfl fun _ _ _ hres => Or.inl hres

theorem LoopRun.inv {w₀ : LoopWorld ε} (h : LoopRun cfg w₀ w) : LoopInv cfg w₀.env.switch w :=
  invariant_of_steps (LoopInv cfg w₀.env.switch) (LoopInv.initial h.1)
    (fun _ _ ha hstep => ha.step hstep) h.2

end Loop

end Statim
