import Statim.Apps.MobileTraces

/-!
# The retries of a mobile

A mobile numbers its Traces without gaps.  A Trace is sent again only after its whole
lifetime and only if it was never answered, and for each Trace that is due to an
association or a refresh this happens three times at most.
-/

namespace Statim

open Support

namespace StatimMobile

variable {cfg : MobileConfig} {w w' : MobileWorld}

/-- The number of a Trace. -/
def MobileObs.traceSeq? : MobileObs → Option UInt64
  | .trace _ seq _ _ => some seq
  | _ => none

/-- The numbers of the Traces that were sent. -/
def traceSeqs (log : List MobileObs) : List UInt64 := log.filterMap MobileObs.traceSeq?

/-- How often a Trace was sent again. -/
def retries (log : List MobileObs) : ℕ :=
  log.countP fun o => match o with
    | .retried _ _ => true
    | _ => false

/-- How often the mobile was associated. -/
def associations (log : List MobileObs) : ℕ :=
  log.countP fun o => match o with
    | .associated _ => true
    | _ => false

theorem traceSeqs_append (log log' : List MobileObs) :
    traceSeqs (log ++ log') = traceSeqs log ++ traceSeqs log' := List.filterMap_append

theorem retries_append (log log' : List MobileObs) :
    retries (log ++ log') = retries log + retries log' := List.countP_append

theorem associations_append (log log' : List MobileObs) :
    associations (log ++ log') = associations log + associations log' := List.countP_append

theorem counts_of_sentData {news : List MobileObs}
    (hnews : ∀ o ∈ news, ∃ time name, o = .sentData time name) :
    traceSeqs news = [] ∧ retries news = 0 ∧ associations news = 0 := by
  refine ⟨?_, ?_, ?_⟩
  · rw [traceSeqs, List.filterMap_eq_nil_iff]
    intro o ho
    obtain ⟨time, name, rfl⟩ := hnews o ho
    rfl
  · rw [retries, List.countP_eq_zero]
    intro o ho
    obtain ⟨time, name, rfl⟩ := hnews o ho
    exact Bool.false_ne_true
  · rw [associations, List.countP_eq_zero]
    intro o ho
    obtain ⟨time, name, rfl⟩ := hnews o ho
    exact Bool.false_ne_true

/-! ## Numbers -/

/-- The Traces that were sent and the answers to them. -/
structure Ledger (w : MobileWorld) : Prop where
  seq : w.app.seq.toNat = w.app.rvInterests + 1
  numbered : traceSeqs w.log =
    (List.range w.app.rvInterests).map fun i => UInt64.ofNat (i + 1)
  latest : w.app.rvInterests ≠ 0 →
    ∃ name lifetime, .trace w.app.lastTraceSendTime (w.app.seq - 1) name lifetime ∈ w.log
  answered : ∀ time seq, .answered time seq ∈ w.log → seq.toNat ≤ w.app.rvInterests
  unanswered : ∀ e ∈ w.app.events, e.event = .traceTimeout →
    w.app.rvInterests ≠ 0 ∧ ∀ time, .answered time (w.app.seq - 1) ∉ w.log

/-- The Traces that were sent again have numbers below `n`. -/
def Retried (cfg : MobileConfig) (n : ℕ) (log : List MobileObs) : Prop :=
  ∀ time seq, .retried time seq ∈ log →
    seq.toNat < n ∧ (∀ time', .answered time' seq ∉ log) ∧
      ∃ sent name lifetime, .trace sent seq name lifetime ∈ log ∧ time = sent + timeoutDelay cfg

theorem Ledger.toNat_pred (h : Ledger w) : (w.app.seq - 1).toNat = w.app.rvInterests := by
  have hone : (1 : UInt64) ≤ w.app.seq := by
    rw [UInt64.le_iff_toNat_le, h.seq]
    exact Nat.le_add_left 1 _
  rw [UInt64.toNat_sub_of_le _ _ hone, h.seq]
  exact Nat.add_sub_cancel _ _

theorem Ledger.sendTrace (h : Ledger w) (hfew : w.app.rvInterests + 2 < 2 ^ 64) :
    Ledger (sendTrace cfg w) := by
  have hsends := sends_sendTrace cfg w
  have hprev : w.app.seq + 1 - 1 = w.app.seq := UInt64.add_sub_cancel _ _
  have hanswers : ∀ time seq, .answered time seq ∈ (StatimMobile.sendTrace cfg w).log →
      .answered time seq ∈ w.log := by
    intro time seq hmem
    rw [hsends.log, List.mem_append, List.mem_singleton] at hmem
    exact hmem.resolve_right nofun
  refine ⟨?_, ?_, fun _ => ?_, fun time seq hmem => ?_, fun _ _ _ => ⟨?_, fun time => ?_⟩⟩
  · have hone : (1 : UInt64).toNat = 1 := rfl
    rw [hsends.seq, hsends.rvInterests, UInt64.toNat_add, hone, h.seq]
    exact Nat.mod_eq_of_lt hfew
  · have hseq : w.app.seq = UInt64.ofNat (w.app.rvInterests + 1) := by
      rw [← h.seq, UInt64.ofNat_toNat]
    rw [hsends.log, traceSeqs_append, h.numbered, hsends.rvInterests, List.range_succ,
      List.map_append, List.map_singleton, ← hseq]
    rfl
  · rw [hsends.last, hsends.seq, hprev, hsends.log]
    exact ⟨_, _, List.mem_append_right _ List.mem_cons_self⟩
  · rw [hsends.rvInterests]
    exact Nat.le_succ_of_le (h.answered time seq (hanswers time seq hmem))
  · rw [hsends.rvInterests]
    exact Nat.succ_ne_zero _
  · rw [hsends.seq, hprev]
    intro hmem
    have hle := h.answered time _ (hanswers time _ hmem)
    rw [h.seq] at hle
    exact Nat.not_succ_le_self _ hle

/-- A move that sends no Trace. -/
theorem Ledger.keep (h : Ledger w)
    (hevents : ∀ e ∈ w'.app.events, e.event = .traceTimeout → e ∈ w.app.events)
    (hseq : w'.app.seq = w.app.seq) (hsent : w'.app.rvInterests = w.app.rvInterests)
    (hlast : w'.app.lastTraceSendTime = w.app.lastTraceSendTime) {news : List MobileObs}
    (hlog : w'.log = w.log ++ news) (hnews : traceSeqs news = [])
    (hanswers : ∀ time seq, .answered time seq ∈ news → seq.toNat ≤ w.app.rvInterests ∧
      ∀ e ∈ w'.app.events, e.event ≠ .traceTimeout) : Ledger w' := by
  refine ⟨?_, ?_, fun hsome => ?_, fun time seq hmem => ?_, fun e he hevent => ?_⟩
  · rw [hseq, hsent]
    exact h.seq
  · rw [hlog, traceSeqs_append, hnews, List.append_nil, hsent]
    exact h.numbered
  · rw [hlast, hseq, hlog]
    obtain ⟨name, lifetime, hmem⟩ := h.latest (hsent ▸ hsome)
    exact ⟨name, lifetime, List.mem_append_left _ hmem⟩
  · rw [hsent]
    rw [hlog] at hmem
    rcases List.mem_append.mp hmem with hold | hnew
    · exact h.answered time seq hold
    · exact (hanswers time seq hnew).1
  · rw [hsent, hseq, hlog]
    obtain ⟨hsome, hnone⟩ := h.unanswered e (hevents e he hevent) hevent
    refine ⟨hsome, fun time hmem => ?_⟩
    rcases List.mem_append.mp hmem with hold | hnew
    · exact hnone time hold
    · exact (hanswers time _ hnew).2 e he hevent

theorem Retried.keep {n n' : ℕ} {log news : List MobileObs} (h : Retried cfg n log)
    (hle : n ≤ n')
    (hnews : ∀ time seq, .retried time seq ∈ news → seq.toNat < n' ∧
      (∀ time', .answered time' seq ∉ log) ∧
        ∃ sent name lifetime, .trace sent seq name lifetime ∈ log ∧
          time = sent + timeoutDelay cfg)
    (hanswers : ∀ time seq, .answered time seq ∈ news →
      (∀ time', .retried time' seq ∉ news) ∧ n ≤ seq.toNat) :
    Retried cfg n' (log ++ news) := by
  intro time seq hmem
  rcases List.mem_append.mp hmem with hold | hnew
  · obtain ⟨hlt, hnone, sent, name, lifetime, htrace, htime⟩ := h time seq hold
    refine ⟨Nat.lt_of_lt_of_le hlt hle, fun time' hmem' => ?_, sent, name, lifetime,
      List.mem_append_left _ htrace, htime⟩
    rcases List.mem_append.mp hmem' with hbefore | hafter
    · exact hnone time' hbefore
    · exact absurd hlt (Nat.not_lt_of_le (hanswers time' seq hafter).2)
  · obtain ⟨hlt, hnone, sent, name, lifetime, htrace, htime⟩ := hnews time seq hnew
    refine ⟨hlt, fun time' hmem' => ?_, sent, name, lifetime, List.mem_append_left _ htrace, htime⟩
    rcases List.mem_append.mp hmem' with hbefore | hafter
    · exact hnone time' hbefore
    · exact (hanswers time' seq hafter).1 time hnew

theorem Retried.sendTrace (h : Retried cfg (w.app.rvInterests + 1) w.log) :
    Retried cfg (sendTrace cfg w).app.rvInterests (sendTrace cfg w).log := by
  have hsends := sends_sendTrace cfg w
  rw [hsends.rvInterests, hsends.log]
  refine h.keep (Nat.le_refl _) (fun time seq hmem => ?_) fun time seq hmem => ?_
  · exact nomatch List.mem_singleton.mp hmem
  · exact nomatch List.mem_singleton.mp hmem

/-- The last Trace has timed out: it was not answered, and its lifetime has passed. -/
theorem Retried.noteTimeout (h : Retried cfg w.app.rvInterests w.log) (hledger : Ledger w)
    (htimers : Timers cfg w) {e : Scheduled MobileEvent} (he : e ∈ w.app.events)
    (hevent : e.event = .traceTimeout) :
    Retried cfg (w.app.rvInterests + 1) (noteTimeout (takeEvent e w)).log := by
  have hlog : (StatimMobile.noteTimeout (takeEvent e w)).log =
      w.log ++ [.retried e.ts (w.app.seq - 1)] := rfl
  obtain ⟨hsome, hnone⟩ := hledger.unanswered e he hevent
  obtain ⟨name, lifetime, htrace⟩ := hledger.latest hsome
  rw [hlog]
  refine h.keep (Nat.le_succ _) (fun time seq hmem => ?_) fun time seq hmem => ?_
  · obtain ⟨rfl, rfl⟩ := MobileObs.retried.inj (List.mem_singleton.mp hmem)
    rw [hledger.toNat_pred]
    exact ⟨Nat.lt_succ_self _, hnone, _, name, lifetime, htrace, htimers.timeoutDue e he hevent⟩
  · exact nomatch List.mem_singleton.mp hmem

theorem Ledger.takeEvent (h : Ledger w) (e : Scheduled MobileEvent) : Ledger (takeEvent e w) :=
  h.keep (fun _ he' _ => (mem_cancel.mp he').1) rfl rfl rfl (List.append_nil _).symm rfl
    fun _ _ hmem => absurd hmem List.not_mem_nil

theorem Ledger.noteTimeout (h : Ledger w) : Ledger (noteTimeout w) :=
  h.keep (fun _ he _ => (mem_cancel?.mp he).1) rfl rfl rfl rfl rfl
    fun _ _ hmem => nomatch List.mem_singleton.mp hmem

/-- Traces are only added. -/
theorem Move.rvInterests_le (hmove : Move cfg w w') : w.app.rvInterests ≤ w'.app.rvInterests := by
  have hsends : ∀ v, v.app.rvInterests ≤ (StatimMobile.sendTrace cfg v).app.rvInterests := by
    intro v
    rw [(sends_sendTrace cfg v).rvInterests]
    exact Nat.le_succ _
  cases hmove with
  | idle hidle => exact Nat.le_of_eq hidle.rvInterests.symm
  | associate => exact Nat.le_refl _
  | answer => exact Nat.le_refl _
  | @fresh e hnext hevent => exact hsends (takeEvent e w)
  | giveUp hnext hevent hcnt => exact Nat.le_refl _
  | @retry e hnext hevent hcnt => exact hsends (noteTimeout (takeEvent e w))
  | stuck hnext hevent hseq => exact Nat.le_refl _

theorem Ledger.move (h : Ledger w) (htimers : Timers cfg w) (hmove : Move cfg w w')
    (hfew : w'.app.rvInterests + 1 < 2 ^ 64) : Ledger w' := by
  cases hmove with
  | idle hidle =>
      obtain ⟨news, hlog, hnews⟩ := hidle.log
      refine h.keep (fun e he _ => hidle.events ▸ he) hidle.seq hidle.rvInterests hidle.last hlog
        (counts_of_sentData hnews).1 fun time seq hmem => ?_
      obtain ⟨_, _, heq⟩ := hnews _ hmem
      cases heq
  | associate =>
      refine h.keep (fun e he hevent => ?_) rfl rfl rfl rfl rfl
        fun _ _ hmem => nomatch List.mem_singleton.mp hmem
      rcases List.mem_append.mp he with hold | hnew
      · exact hold
      · rw [List.mem_singleton.mp hnew] at hevent
        cases hevent
  | answer =>
      refine h.keep (fun e he _ => (mem_cancel?.mp he).1) rfl rfl rfl rfl rfl
        fun time seq hmem => ⟨?_, fun e he hevent => ?_⟩
      · rw [(MobileObs.answered.inj (List.mem_singleton.mp hmem)).2, h.toNat_pred]
      · obtain ⟨hold, hother⟩ := mem_cancel?.mp he
        exact hother ((htimers.timeout e hold).mp hevent)
  | @fresh e hnext hevent =>
      rw [(sends_sendTrace cfg _).rvInterests] at hfew
      exact (h.takeEvent e).sendTrace hfew
  | @giveUp e hnext hevent hcnt =>
      exact (h.takeEvent e).keep (fun e he _ => (mem_cancel?.mp he).1) rfl rfl rfl rfl rfl
        fun _ _ hmem => nomatch List.mem_singleton.mp hmem
  | @retry e hnext hevent hcnt =>
      have hsent : (countRetry (StatimMobile.sendTrace cfg
          (StatimMobile.noteTimeout (StatimMobile.takeEvent e w)))).app.rvInterests =
            w.app.rvInterests + 1 := (sends_sendTrace cfg _).rvInterests
      rw [hsent] at hfew
      exact ((h.takeEvent e).noteTimeout.sendTrace hfew).keep (fun _ he _ => he) rfl rfl rfl
        (List.append_nil _).symm rfl fun _ _ hmem => absurd hmem List.not_mem_nil
  | @stuck e hnext hevent hseq =>
      exact (h.takeEvent e).noteTimeout.keep (fun _ he _ => he) rfl rfl rfl
        (List.append_nil _).symm rfl fun _ _ hmem => absurd hmem List.not_mem_nil

theorem Retried.move (h : Retried cfg w.app.rvInterests w.log) (hledger : Ledger w)
    (htimers : Timers cfg w) (hmove : Move cfg w w') :
    Retried cfg w'.app.rvInterests w'.log := by
  cases hmove with
  | idle hidle =>
      obtain ⟨news, hlog, hnews⟩ := hidle.log
      rw [hidle.rvInterests, hlog]
      refine h.keep (Nat.le_refl _) (fun time seq hmem => ?_) fun time seq hmem => ?_
      · obtain ⟨_, _, heq⟩ := hnews _ hmem
        cases heq
      · obtain ⟨_, _, heq⟩ := hnews _ hmem
        cases heq
  | associate =>
      exact h.keep (Nat.le_refl _) (fun _ _ hmem => nomatch List.mem_singleton.mp hmem)
        fun _ _ hmem => nomatch List.mem_singleton.mp hmem
  | answer =>
      refine h.keep (Nat.le_refl _) (fun _ _ hmem => nomatch List.mem_singleton.mp hmem)
        fun time seq hmem => ⟨fun _ hmem' => ?_, ?_⟩
      · exact nomatch List.mem_singleton.mp hmem'
      rw [(MobileObs.answered.inj (List.mem_singleton.mp hmem)).2, hledger.toNat_pred]
  | fresh hnext hevent =>
      refine Retried.sendTrace fun time seq hmem => ?_
      obtain ⟨hlt, hrest⟩ := h time seq hmem
      exact ⟨Nat.lt_succ_of_lt hlt, hrest⟩
  | giveUp hnext hevent hcnt =>
      exact h.keep (Nat.le_refl _) (fun _ _ hmem => nomatch List.mem_singleton.mp hmem)
        fun _ _ hmem => nomatch List.mem_singleton.mp hmem
  | retry hnext hevent hcnt =>
      exact (h.noteTimeout hledger htimers hnext.1 hevent).sendTrace
  | stuck hnext hevent hseq =>
      have htoNat := hledger.seq
      rw [hseq] at htoNat
      cases htoNat

/-! ## Retries -/

theorem countP_cancel? {handle : Option ℕ} {events : List (Scheduled MobileEvent)}
    {p : Scheduled MobileEvent → Bool} (h : ∀ e ∈ events, handle = some e.uid → p e = false) :
    (cancel? handle events).countP p = events.countP p := by
  cases handle with
  | none => rfl
  | some uid =>
      rw [cancel?, cancel, List.countP_filter]
      refine List.countP_congr fun e he => ?_
      by_cases huid : uid = e.uid
      · rw [h e he (congrArg some huid), Bool.false_and]
      · rw [bne_iff_ne.mpr (Ne.symm huid), Bool.and_true]

/-- The Traces of associations and refreshes that are scheduled. -/
def scheduledTraces (w : MobileWorld) : ℕ := w.app.events.countP fun e => e.event == .sendTrace

/-- A new Trace takes the place of a refresh, and changes none of the other events. -/
theorem scheduledTraces_sendTrace (htimers : Timers cfg w) (hoff : cfg.refreshInterval = 0) :
    scheduledTraces (sendTrace cfg w) = scheduledTraces w := by
  have hnone := htimers.refreshOff hoff
  have hevents := (sends_sendTrace cfg w).events
  rw [hnone, if_neg (not_not.mpr hoff), List.append_nil] at hevents
  have htimeout : ∀ e ∈ w.app.events, w.app.traceTimeoutEvent = some e.uid →
      (e.event == MobileEvent.sendTrace) = false := by
    intro e he hhandle
    rw [(htimers.timeout e he).mpr hhandle]
    rfl
  have hcancelled := countP_cancel? htimeout
  rw [scheduledTraces, hevents, List.countP_append, cancel?, hcancelled]
  rfl

/-- The retries against the Traces that were sent. -/
structure Budget (cfg : MobileConfig) (w : MobileWorld) : Prop where
  bound : w.app.traceRetryCnt ≤ 3
  within : 4 * retries w.log ≤ 3 * w.app.rvInterests
  slack : ∀ e ∈ w.app.events, e.event = .traceTimeout →
    4 * retries w.log + (3 - w.app.traceRetryCnt) ≤ 3 * w.app.rvInterests
  source : cfg.refreshInterval = 0 →
    w.app.rvInterests + scheduledTraces w = associations w.log + retries w.log

theorem Budget.idle (h : Budget cfg w) (hidle : Idle w w') : Budget cfg w' := by
  obtain ⟨news, hlog, hnews⟩ := hidle.log
  obtain ⟨-, hretries, hassociations⟩ := counts_of_sentData hnews
  have hretried : retries w'.log = retries w.log := by
    rw [hlog, retries_append, hretries, Nat.add_zero]
  have hassociated : associations w'.log = associations w.log := by
    rw [hlog, associations_append, hassociations, Nat.add_zero]
  refine ⟨?_, ?_, ?_, ?_⟩
  · rw [hidle.retryCnt]
    exact h.bound
  · rw [hretried, hidle.rvInterests]
    exact h.within
  · rw [hretried, hidle.events, hidle.retryCnt, hidle.rvInterests]
    exact h.slack
  · rw [hretried, hassociated, hidle.rvInterests, scheduledTraces, hidle.events]
    exact h.source

theorem Budget.associate (h : Budget cfg w) : Budget cfg (onAssociation cfg w) := by
  have hretried : retries (onAssociation cfg w).log = retries w.log := retries_append _ _
  have hassociated : associations (onAssociation cfg w).log = associations w.log + 1 :=
    associations_append _ _
  have hscheduled : scheduledTraces (onAssociation cfg w) = scheduledTraces w + 1 :=
    List.countP_append
  refine ⟨h.bound, ?_, fun e he hevent => ?_, fun hoff => ?_⟩
  · rw [hretried]
    exact h.within
  · rw [hretried]
    rcases List.mem_append.mp he with hold | hnew
    · exact h.slack e hold hevent
    · rw [List.mem_singleton.mp hnew] at hevent
      cases hevent
  · have hsource := h.source hoff
    have hsent : (onAssociation cfg w).app.rvInterests = w.app.rvInterests := rfl
    omega

/-- An answer leaves no timeout. -/
theorem Timers.not_timeout_answer (h : Timers cfg w) {e : Scheduled MobileEvent}
    (he : e ∈ (StatimMobile.answer w).app.events) : e.event ≠ .traceTimeout := by
  obtain ⟨hold, hother⟩ := mem_cancel?.mp he
  exact fun hevent => hother ((h.timeout e hold).mp hevent)

theorem Budget.answer (h : Budget cfg w) (htimers : Timers cfg w) : Budget cfg (answer w) := by
  have hretried : retries (StatimMobile.answer w).log = retries w.log := retries_append _ _
  have hassociated : associations (StatimMobile.answer w).log = associations w.log :=
    associations_append _ _
  refine ⟨Nat.zero_le _, ?_, fun e he hevent => ?_, fun hoff => ?_⟩
  · rw [hretried]
    exact h.within
  · exact absurd hevent (htimers.not_timeout_answer he)
  · have hscheduled : scheduledTraces (StatimMobile.answer w) = scheduledTraces w := by
      refine countP_cancel? fun e he hhandle => ?_
      rw [(htimers.timeout e he).mpr hhandle]
      rfl
    rw [hretried, hassociated, hscheduled]
    exact h.source hoff

theorem Budget.fresh (h : Budget cfg w) (htimers : Timers cfg w) {e : Scheduled MobileEvent}
    (hnext : IsNext e w.app.events) (hevent : e.event = .sendTrace) :
    Budget cfg (sendTrace cfg (takeEvent e w)) := by
  have hsends := sends_sendTrace cfg (takeEvent e w)
  have hretried : retries (StatimMobile.sendTrace cfg (takeEvent e w)).log = retries w.log := by
    rw [hsends.log]
    exact retries_append _ _
  have hassociated : associations (StatimMobile.sendTrace cfg (takeEvent e w)).log =
      associations w.log := by
    rw [hsends.log]
    exact associations_append _ _
  have hwithin := h.within
  have hsent : (StatimMobile.sendTrace cfg (takeEvent e w)).app.rvInterests =
      w.app.rvInterests + 1 := hsends.rvInterests
  refine ⟨hsends.retryCnt ▸ h.bound, ?_, fun _ _ _ => ?_, fun hoff => ?_⟩
  · omega
  · omega
  · have hsource := h.source hoff
    have hscheduled := scheduledTraces_sendTrace (htimers.takeEvent hnext) hoff
    have htaken : scheduledTraces w = scheduledTraces (takeEvent e w) + 1 := by
      have hcount := htimers.queue.countP_cancel hnext.1 fun e => e.event == .sendTrace
      rw [if_pos (beq_iff_eq.mpr hevent)] at hcount
      exact hcount
    omega

/-- A timeout that is taken was no Trace that is scheduled. -/
theorem scheduledTraces_takeEvent (htimers : Timers cfg w) {e : Scheduled MobileEvent}
    (hnext : IsNext e w.app.events) (hevent : e.event = .traceTimeout) :
    scheduledTraces (takeEvent e w) = scheduledTraces w := by
  have hcount := htimers.queue.countP_cancel hnext.1 fun e => e.event == .sendTrace
  rw [hevent] at hcount
  exact hcount.symm

/-- Without a refresh interval there is no refresh to cancel. -/
theorem scheduledTraces_cancelRefresh (htimers : Timers cfg w) (hoff : cfg.refreshInterval = 0) :
    (cancel? w.app.traceRefreshEvent w.app.events).countP (fun e => e.event == .sendTrace) =
      scheduledTraces w := by
  refine countP_cancel? fun e _ hhandle => ?_
  rw [htimers.refreshOff hoff] at hhandle
  cases hhandle

/-- Giving up leaves no timeout. -/
theorem Timers.not_timeout_giveUp (h : Timers cfg w) {e e' : Scheduled MobileEvent}
    (hnext : IsNext e w.app.events) (hevent : e.event = .traceTimeout)
    (he' : e' ∈ (StatimMobile.giveUp (StatimMobile.takeEvent e w)).app.events) :
    e'.event ≠ .traceTimeout := by
  intro hevent'
  have hleft := mem_cancel.mp (mem_cancel?.mp he').1
  have hsame := h.queue.uid_unique hleft.1 hnext.1 (by
    have hhandle := (h.timeout e' hleft.1).mp hevent'
    rw [(h.timeout e hnext.1).mp hevent] at hhandle
    exact (Option.some.inj hhandle).symm)
  exact hleft.2 (congrArg Scheduled.uid hsame)

theorem Budget.giveUp (h : Budget cfg w) (htimers : Timers cfg w) {e : Scheduled MobileEvent}
    (hnext : IsNext e w.app.events) (hevent : e.event = .traceTimeout) :
    Budget cfg (giveUp (takeEvent e w)) := by
  have hretried : retries (StatimMobile.giveUp (takeEvent e w)).log = retries w.log :=
    retries_append _ _
  have hassociated : associations (StatimMobile.giveUp (takeEvent e w)).log = associations w.log :=
    associations_append _ _
  refine ⟨Nat.zero_le _, ?_, fun e' he' hevent' => ?_, fun hoff => ?_⟩
  · rw [hretried]
    exact h.within
  · exact absurd hevent' (htimers.not_timeout_giveUp hnext hevent he')
  · have hscheduled : scheduledTraces (StatimMobile.giveUp (takeEvent e w)) =
        scheduledTraces (takeEvent e w) :=
      scheduledTraces_cancelRefresh (htimers.takeEvent hnext) hoff
    rw [hretried, hassociated, hscheduled, scheduledTraces_takeEvent htimers hnext hevent]
    exact h.source hoff

theorem Budget.retry (h : Budget cfg w) (htimers : Timers cfg w) {e : Scheduled MobileEvent}
    (hnext : IsNext e w.app.events) (hevent : e.event = .traceTimeout)
    (hcnt : w.app.traceRetryCnt < 3) :
    Budget cfg (countRetry (sendTrace cfg (noteTimeout (takeEvent e w)))) := by
  have hsends := sends_sendTrace cfg (noteTimeout (takeEvent e w))
  generalize hsent : StatimMobile.sendTrace cfg (noteTimeout (takeEvent e w)) = v at hsends
  have hretried : retries (countRetry v).log = retries w.log + 1 := by
    have hlog : (countRetry v).log = v.log := rfl
    rw [hlog, hsends.log, retries_append]
    exact retries_append _ _
  have hassociated : associations (countRetry v).log = associations w.log := by
    have hlog : (countRetry v).log = v.log := rfl
    rw [hlog, hsends.log, associations_append]
    exact associations_append _ _
  have hcounted : (countRetry v).app.traceRetryCnt = w.app.traceRetryCnt + 1 :=
    congrArg (· + 1) hsends.retryCnt
  have hsentCount : (countRetry v).app.rvInterests = w.app.rvInterests + 1 := hsends.rvInterests
  have hslack := h.slack e hnext.1 hevent
  refine ⟨?_, ?_, fun _ _ _ => ?_, fun hoff => ?_⟩
  · omega
  · omega
  · omega
  · have hsource := h.source hoff
    have hscheduled : scheduledTraces (countRetry v) =
        scheduledTraces (noteTimeout (takeEvent e w)) := by
      rw [← hsent]
      exact scheduledTraces_sendTrace (htimers.takeEvent hnext).noteTimeout hoff
    have hcancelled : scheduledTraces (noteTimeout (takeEvent e w)) =
        scheduledTraces (takeEvent e w) :=
      scheduledTraces_cancelRefresh (htimers.takeEvent hnext) hoff
    have hkept := scheduledTraces_takeEvent htimers hnext hevent
    omega

theorem Budget.move (h : Budget cfg w) (htimers : Timers cfg w) (hseq : w.app.seq ≠ 0)
    (hmove : Move cfg w w') : Budget cfg w' := by
  cases hmove with
  | idle hidle => exact h.idle hidle
  | associate => exact h.associate
  | answer => exact h.answer htimers
  | fresh hnext hevent => exact h.fresh htimers hnext hevent
  | giveUp hnext hevent hcnt => exact h.giveUp htimers hnext hevent
  | retry hnext hevent hcnt => exact h.retry htimers hnext hevent hcnt
  | stuck hnext hevent hzero => exact absurd hzero hseq

/-! ## Retries in a row -/

/-- Counts the retries since the last other Trace; the flag says that the next Trace is a
retry. -/
def addStreak (s : ℕ × Bool) : MobileObs → ℕ × Bool
  | .retried _ _ => (s.1 + 1, true)
  | .trace _ _ _ _ => (if s.2 then s.1 else 0, false)
  | _ => s

/-- The retries since the last Trace that was no retry. -/
def streak (log : List MobileObs) : ℕ × Bool := log.foldl addStreak (0, false)

theorem streak_concat (log : List MobileObs) (o : MobileObs) :
    streak (log ++ [o]) = addStreak (streak log) o := by
  rw [streak, List.foldl_append]
  rfl

/-- At no time were there more than three retries in a row. -/
def ShortStreaks (log : List MobileObs) : Prop :=
  ∀ earlier, earlier <+: log → (streak earlier).1 ≤ 3

theorem ShortStreaks.concat {log : List MobileObs} {o : MobileObs} (h : ShortStreaks log)
    (ho : (addStreak (streak log) o).1 ≤ 3) : ShortStreaks (log ++ [o]) := by
  intro earlier hprefix
  rcases List.prefix_concat_iff.mp hprefix with rfl | hbefore
  · rw [streak_concat]
    exact ho
  · exact h earlier hbefore

/-- A Trace that was sent again for the third time is the last one in a row. -/
structure Streaks (w : MobileWorld) : Prop where
  short : ShortStreaks w.log
  settled : (streak w.log).2 = false
  counted : ∀ e ∈ w.app.events, e.event = .traceTimeout →
    (streak w.log).1 ≤ w.app.traceRetryCnt

/-- A move that neither sends a Trace nor schedules a timeout. -/
theorem Streaks.keep (h : Streaks w) {news : List MobileObs} (hlog : w'.log = w.log ++ news)
    (hnews : ∀ o ∈ news, ∀ s, addStreak s o = s)
    (hevents : ∀ e ∈ w'.app.events, e.event = .traceTimeout →
      e ∈ w.app.events ∧ w'.app.traceRetryCnt = w.app.traceRetryCnt) : Streaks w' := by
  have hall : ShortStreaks w'.log ∧ streak w'.log = streak w.log := by
    rw [hlog]
    clear hlog
    induction news using List.reverseRecOn with
    | nil =>
        rw [List.append_nil]
        exact ⟨h.short, rfl⟩
    | append_singleton news o ih =>
        obtain ⟨hshort, hsame⟩ := ih fun o' ho' => hnews o' (List.mem_append_left _ ho')
        have hneutral := hnews o (List.mem_append_right _ List.mem_cons_self)
        rw [← List.append_assoc, streak_concat, hneutral]
        refine ⟨hshort.concat ?_, hsame⟩
        rw [hneutral]
        exact hshort _ (List.prefix_refl _)
  obtain ⟨hshort, hsame⟩ := hall
  refine ⟨hshort, ?_, fun e he hevent => ?_⟩
  · rw [hsame]
    exact h.settled
  · obtain ⟨hold, hcount⟩ := hevents e he hevent
    rw [hsame, hcount]
    exact h.counted e hold hevent

theorem Streaks.fresh (h : Streaks w) (e : Scheduled MobileEvent) :
    Streaks (sendTrace cfg (takeEvent e w)) := by
  have hsends := sends_sendTrace cfg (takeEvent e w)
  have hstreak : streak (StatimMobile.sendTrace cfg (takeEvent e w)).log = (0, false) := by
    rw [hsends.log, streak_concat, addStreak]
    have hsettled : (streak (takeEvent e w).log).2 = false := h.settled
    rw [hsettled]
    rfl
  refine ⟨?_, congrArg Prod.snd hstreak, fun _ _ _ => ?_⟩
  · have hfirst := congrArg Prod.fst hstreak
    rw [hsends.log, streak_concat] at hfirst
    rw [hsends.log]
    exact ShortStreaks.concat h.short (hfirst.trans_le (Nat.zero_le _))
  · rw [hstreak]
    exact Nat.zero_le _

theorem Streaks.retry (h : Streaks w) {e : Scheduled MobileEvent}
    (hnext : IsNext e w.app.events) (hevent : e.event = .traceTimeout)
    (hcnt : w.app.traceRetryCnt < 3) :
    Streaks (countRetry (sendTrace cfg (noteTimeout (takeEvent e w)))) := by
  have hsends := sends_sendTrace cfg (noteTimeout (takeEvent e w))
  generalize StatimMobile.sendTrace cfg (noteTimeout (takeEvent e w)) = v at hsends
  have hcounted := h.counted e hnext.1 hevent
  have hnoted : (noteTimeout (takeEvent e w)).log = w.log ++ [.retried e.ts (w.app.seq - 1)] := rfl
  have hbefore : streak (noteTimeout (takeEvent e w)).log = ((streak w.log).1 + 1, true) := by
    rw [hnoted, streak_concat]
    rfl
  have hshort : ShortStreaks (noteTimeout (takeEvent e w)).log := by
    rw [hnoted]
    exact h.short.concat (Nat.succ_le_of_lt (Nat.lt_of_le_of_lt hcounted hcnt))
  have hstreak : streak (countRetry v).log = ((streak w.log).1 + 1, false) := by
    have hlog : (countRetry v).log = v.log := rfl
    rw [hlog, hsends.log, streak_concat, hbefore]
    rfl
  have hcount : (countRetry v).app.traceRetryCnt = w.app.traceRetryCnt + 1 :=
    congrArg (· + 1) hsends.retryCnt
  refine ⟨?_, congrArg Prod.snd hstreak, fun _ _ _ => ?_⟩
  · have hlog : (countRetry v).log = v.log := rfl
    rw [hlog, hsends.log]
    refine hshort.concat ?_
    rw [hbefore]
    exact Nat.succ_le_of_lt (Nat.lt_of_le_of_lt hcounted hcnt)
  · rw [hstreak, hcount]
    exact Nat.succ_le_succ hcounted

theorem Streaks.move (h : Streaks w) (htimers : Timers cfg w) (hseq : w.app.seq ≠ 0)
    (hmove : Move cfg w w') : Streaks w' := by
  cases hmove with
  | idle hidle =>
      obtain ⟨news, hlog, hnews⟩ := hidle.log
      refine h.keep hlog (fun o ho s => ?_) fun e he _ => ⟨hidle.events ▸ he, hidle.retryCnt⟩
      obtain ⟨_, _, rfl⟩ := hnews o ho
      rfl
  | associate =>
      refine h.keep rfl (fun o ho s => ?_) fun e he hevent => ⟨?_, rfl⟩
      · rw [List.mem_singleton.mp ho]
        rfl
      · rcases List.mem_append.mp he with hold | hnew
        · exact hold
        · rw [List.mem_singleton.mp hnew] at hevent
          cases hevent
  | answer =>
      refine h.keep rfl (fun o ho s => ?_) fun e he hevent =>
        absurd hevent (htimers.not_timeout_answer he)
      rw [List.mem_singleton.mp ho]
      rfl
  | @fresh e hnext hevent => exact h.fresh e
  | giveUp hnext hevent hcnt =>
      refine h.keep rfl (fun o ho s => ?_) fun e he hevent' =>
        absurd hevent' (htimers.not_timeout_giveUp hnext hevent he)
      rw [List.mem_singleton.mp ho]
      rfl
  | retry hnext hevent hcnt => exact h.retry hnext hevent hcnt
  | stuck hnext hevent hzero => exact absurd hzero hseq

/-! ## Runs -/

/-- What holds of the Traces of a mobile while its sequence number has not come round. -/
structure Accounts (cfg : MobileConfig) (w : MobileWorld) : Prop where
  ledger : Ledger w
  retried : Retried cfg w.app.rvInterests w.log
  budget : Budget cfg w
  streaks : Streaks w

theorem accounts_initial (cfg : MobileConfig) (current : UInt64) (c : Clock) :
    Accounts cfg (initial current c) where
  ledger :=
    { seq := rfl
      numbered := rfl
      latest := fun hsome => absurd rfl hsome
      answered := fun _ _ hmem => absurd hmem List.not_mem_nil
      unanswered := fun _ he => absurd he List.not_mem_nil }
  retried := fun _ _ hmem => absurd hmem List.not_mem_nil
  budget :=
    { bound := Nat.zero_le _
      within := Nat.zero_le _
      slack := fun _ he => absurd he List.not_mem_nil
      source := fun _ => rfl }
  streaks :=
    { short := fun earlier hprefix => by
        rw [List.prefix_nil.mp hprefix]
        exact Nat.zero_le _
      settled := rfl
      counted := fun _ he => absurd he List.not_mem_nil }

theorem Reachable.accounts (h : Reachable cfg w) (hfew : w.app.rvInterests + 1 < 2 ^ 64) :
    Accounts cfg w := by
  refine h.of_moves (fun v => v.app.rvInterests + 1 < 2 ^ 64 → Accounts cfg v)
    (fun current c _ => accounts_initial cfg current c) (fun v v' htimers hv hmove hfew' => ?_) hfew
  have hle := hmove.rvInterests_le
  have hbefore := hv (by omega)
  have hseq : v.app.seq ≠ 0 := by
    intro hzero
    have htoNat := hbefore.ledger.seq
    rw [hzero] at htoNat
    cases htoNat
  exact ⟨hbefore.ledger.move htimers hmove hfew',
    hbefore.retried.move hbefore.ledger htimers hmove, hbefore.budget.move htimers hseq hmove,
    hbefore.streaks.move htimers hseq hmove⟩

/-- The Traces of a mobile are numbered from 1 on.  A Trace is only sent again if it was not
answered within its lifetime; between one of the other Traces and the next this happens
three times at most, and without a refresh interval the others are due to one association
each. -/
theorem traces_accounted (h : Reachable cfg w) (hfew : w.app.rvInterests + 1 < 2 ^ 64) :
    traceSeqs w.log = (List.range w.app.rvInterests).map (fun i => UInt64.ofNat (i + 1)) ∧
      (∀ time seq, .retried time seq ∈ w.log → (∀ time', .answered time' seq ∉ w.log) ∧
        ∃ sent name lifetime, .trace sent seq name lifetime ∈ w.log ∧
          time = sent + timeoutDelay cfg) ∧
      w.app.traceRetryCnt ≤ 3 ∧ ShortStreaks w.log ∧
      ∃ fresh, w.app.rvInterests = fresh + retries w.log ∧ retries w.log ≤ 3 * fresh ∧
        (cfg.refreshInterval = 0 → fresh ≤ associations w.log) := by
  obtain ⟨hledger, hretried, hbudget, hstreaks⟩ := h.accounts hfew
  have hwithin := hbudget.within
  refine ⟨hledger.numbered, fun time seq hmem => (hretried time seq hmem).2, hbudget.bound,
    hstreaks.short, w.app.rvInterests - retries w.log, ?_, ?_, fun hoff => ?_⟩
  · omega
  · omega
  · have hsource := hbudget.source hoff
    omega

/-! ## A run -/

/-- A mobile of `/rv` that has no refresh interval. -/
def sampleConfig : MobileConfig where
  rvPrefix := [.generic [0x72]]
  dataPrefix := [.generic [0x61]]
  traceLifetime := 20
  refreshInterval := 0
  traceDelay := 10
  throughSeconds := id

/-- After an association four Traces go unanswered, and after another one is answered. -/
def sampleActions : List MobileAction :=
  [ .start,
    .associate,
    .fire ⟨10, 0, .sendTrace⟩,
    .fire ⟨30, 1, .traceTimeout⟩,
    .fire ⟨50, 2, .traceTimeout⟩,
    .fire ⟨70, 3, .traceTimeout⟩,
    .fire ⟨90, 4, .traceTimeout⟩,
    .associate,
    .fire ⟨100, 5, .sendTrace⟩,
    .data [.generic [0x72], .fromSequenceNumber 5] ]

/-- The state after these. -/
def sampleRun : MobileWorld :=
  (sampleActions.foldlM (step sampleConfig) (initial 0 ⟨0, 0⟩)).get (by decide)

theorem reachable_sampleRun : Reachable sampleConfig sampleRun := by
  refine ⟨0, ⟨0, 0⟩, sampleActions, ?_⟩
  unfold sampleRun
  rw [Option.some_get]

theorem traces_accounted_sampleRun : traceSeqs sampleRun.log = [1, 2, 3, 4, 5] ∧
    ShortStreaks sampleRun.log ∧ ∃ fresh, 5 = fresh + 3 ∧ 3 ≤ 3 * fresh := by
  obtain ⟨hnumbered, -, -, hstreaks, fresh, hsent, hretries, -⟩ :=
    traces_accounted reachable_sampleRun (by decide)
  exact ⟨hnumbered, hstreaks, fresh, hsent, hretries⟩

end StatimMobile

end Statim
