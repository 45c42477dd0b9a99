import Mathlib.Data.List.Chain
import Statim.Apps.Mobile

/-!
# The Traces of a mobile

At most one refresh and one timeout are scheduled, and both belong to the Trace that was
sent last.  Where the refresh interval is no longer than the lifetime of a Trace, no Trace
ever times out, and the mobile goes on for good once it has sent one.  Otherwise each
Trace that is due to an association or a refresh is sent again three times at most.
-/

namespace Statim

open Support

namespace StatimMobile

variable {cfg : MobileConfig} {w w' : MobileWorld} {a : MobileAction}

/-- What every step keeps holds in every state. -/
theorem Reachable.induct (Inv : MobileWorld → Prop)
    (hinitial : ∀ current c, Inv (initial current c))
    (hstep : ∀ v a v', Inv v → step cfg v a = some v' → Inv v') (h : Reachable cfg w) :
    Inv w := by
  obtain ⟨current, c, actions, hrun⟩ := h
  have hinv := hinitial current c
  generalize initial current c = v at hrun hinv
  induction actions generalizing v with
  | nil =>
      obtain rfl := Option.some.inj hrun
      exact hinv
  | cons a actions ih =>
      obtain ⟨v', hfirst, hrest⟩ := Option.bind_eq_some_iff.mp hrun
      exact ih v' hrest (hstep v a v' hinv hfirst)

/-! ## The two timers -/

/-- The refresh and the timeout that are scheduled are those of the last Trace. -/
structure Timers (cfg : MobileConfig) (w : MobileWorld) : Prop where
  queue : QueueInv w.clock w.app.events
  refreshIssued : ∀ u, w.app.traceRefreshEvent = some u → u < w.clock.uid
  timeoutIssued : ∀ u, w.app.traceTimeoutEvent = some u → u < w.clock.uid
  refreshOff : cfg.refreshInterval = 0 → w.app.traceRefreshEvent = none
  refresh : ∀ e ∈ w.app.events, w.app.traceRefreshEvent = some e.uid →
    e.event = .sendTrace ∧ e.ts = w.app.lastTraceSendTime + refreshDelay cfg
  timeout : ∀ e ∈ w.app.events,
    e.event = .traceTimeout ↔ w.app.traceTimeoutEvent = some e.uid
  timeoutDue : ∀ e ∈ w.app.events, e.event = .traceTimeout →
    e.ts = w.app.lastTraceSendTime + timeoutDelay cfg

/-- The event of the next refresh. -/
def nextRefresh (cfg : MobileConfig) (w : MobileWorld) : Scheduled MobileEvent :=
  w.clock.schedule (refreshDelay cfg) .sendTrace

/-- The clock after the next refresh has been scheduled. -/
def refreshed (cfg : MobileConfig) (w : MobileWorld) : Clock :=
  if cfg.refreshInterval ≠ 0 then w.clock.next else w.clock

/-- The event of the next timeout. -/
def nextTimeout (cfg : MobileConfig) (w : MobileWorld) : Scheduled MobileEvent :=
  (refreshed cfg w).schedule (timeoutDelay cfg) .traceTimeout

theorem now_refreshed (cfg : MobileConfig) (w : MobileWorld) :
    (refreshed cfg w).now = w.clock.now := by
  unfold refreshed
  split
  · rfl
  · rfl

theorem le_uid_refreshed (cfg : MobileConfig) (w : MobileWorld) :
    w.clock.uid ≤ (refreshed cfg w).uid := by
  unfold refreshed
  split
  · exact Nat.le_succ _
  · exact Nat.le_refl _

/-- What `SendTrace` does. -/
structure Sends (cfg : MobileConfig) (w w' : MobileWorld) : Prop where
  clock : w'.clock = (refreshed cfg w).next
  log : w'.log = w.log ++ [.trace w.clock.now w.app.seq
    (Name.sendTraceName cfg.rvPrefix cfg.dataPrefix w.app.seq) (cfg.traceLifetime / 10 ^ 6)]
  seq : w'.app.seq = w.app.seq + 1
  rvInterests : w'.app.rvInterests = w.app.rvInterests + 1
  last : w'.app.lastTraceSendTime = w.clock.now
  retryCnt : w'.app.traceRetryCnt = w.app.traceRetryCnt
  refreshEvent : w'.app.traceRefreshEvent =
    if cfg.refreshInterval ≠ 0 then some w.clock.uid else w.app.traceRefreshEvent
  timeoutEvent : w'.app.traceTimeoutEvent = some (refreshed cfg w).uid
  events : w'.app.events = cancel? w.app.traceTimeoutEvent
    (cancel? w.app.traceRefreshEvent w.app.events ++
      if cfg.refreshInterval ≠ 0 then [nextRefresh cfg w] else []) ++ [nextTimeout cfg w]

theorem sends_sendTrace (cfg : MobileConfig) (w : MobileWorld) :
    Sends cfg w (sendTrace cfg w) := by
  unfold sendTrace renewTimeout renewRefresh
  split
  next hrefresh =>
    refine ⟨?_, rfl, rfl, rfl, rfl, rfl, (if_pos hrefresh).symm, ?_, ?_⟩
    · rw [refreshed, if_pos hrefresh]
      rfl
    · rw [refreshed, if_pos hrefresh]
      rfl
    · rw [if_pos hrefresh, nextTimeout, refreshed, if_pos hrefresh]
      rfl
  next hoff =>
    refine ⟨?_, rfl, rfl, rfl, rfl, rfl, (if_neg hoff).symm, ?_, ?_⟩
    · rw [refreshed, if_neg hoff]
      rfl
    · rw [refreshed, if_neg hoff]
      rfl
    · rw [if_neg hoff, nextTimeout, refreshed, if_neg hoff, List.append_nil]
      rfl

/-- Of the events before a Trace, its timers take the places of the old ones. -/
theorem Sends.mem_events (hsends : Sends cfg w w') (h : Timers cfg w)
    {e : Scheduled MobileEvent} : e ∈ w'.app.events ↔
      (e ∈ w.app.events ∧ w.app.traceRefreshEvent ≠ some e.uid ∧
          w.app.traceTimeoutEvent ≠ some e.uid) ∨
        (cfg.refreshInterval ≠ 0 ∧ e = nextRefresh cfg w) ∨ e = nextTimeout cfg w := by
  have hnew : e = nextRefresh cfg w → w.app.traceTimeoutEvent ≠ some e.uid := by
    rintro rfl hhandle
    exact Nat.lt_irrefl _ (h.timeoutIssued _ hhandle)
  rw [hsends.events, List.mem_append, List.mem_singleton, mem_cancel?, List.mem_append,
    mem_cancel?, ← or_assoc]
  refine or_congr_left ?_
  by_cases hrefresh : cfg.refreshInterval = 0
  · simp [hrefresh, and_assoc]
  · rw [if_pos hrefresh, List.mem_singleton, or_and_right, and_assoc]
    refine or_congr_right ⟨fun hmem => ⟨hrefresh, hmem.1⟩, fun hmem => ⟨hmem.2, hnew hmem.2⟩⟩

theorem Timers.sendTrace (h : Timers cfg w) : Timers cfg (sendTrace cfg w) := by
  have hsends := sends_sendTrace cfg w
  generalize StatimMobile.sendTrace cfg w = w' at hsends
  have hle := le_uid_refreshed cfg w
  have huid : w'.clock.uid = (refreshed cfg w).uid + 1 := by
    rw [hsends.clock]
    rfl
  refine ⟨?_, ?_, ?_, fun hoff => ?_, ?_, ?_, ?_⟩
  · have hcancelled := h.queue.cancel? w.app.traceRefreshEvent
    have hrefreshed : QueueInv (refreshed cfg w)
        (cancel? w.app.traceRefreshEvent w.app.events ++
          if cfg.refreshInterval ≠ 0 then [nextRefresh cfg w] else []) := by
      unfold refreshed
      split
      · exact hcancelled.schedule _ _
      · rw [List.append_nil]
        exact hcancelled
    rw [hsends.clock, hsends.events]
    exact (hrefreshed.cancel? _).schedule _ _
  · intro u hu
    rw [hsends.refreshEvent] at hu
    split at hu
    · have heq := Option.some.inj hu
      omega
    · have hlt := h.refreshIssued u hu
      omega
  · intro u hu
    rw [hsends.timeoutEvent] at hu
    have heq := Option.some.inj hu
    omega
  · rw [hsends.refreshEvent, if_neg (not_not.mpr hoff)]
    exact h.refreshOff hoff
  · intro e he hhandle
    rw [hsends.refreshEvent] at hhandle
    rcases (hsends.mem_events h).mp he with ⟨hold, hother, -⟩ | ⟨hrefresh, rfl⟩ | rfl
    · split at hhandle
      · have hlt := h.queue.issued e hold
        have heq := Option.some.inj hhandle
        omega
      · exact absurd hhandle hother
    · rw [hsends.last]
      exact ⟨rfl, rfl⟩
    · have hnew : (nextTimeout cfg w).uid = (refreshed cfg w).uid := rfl
      rw [hnew] at hhandle
      split at hhandle
      next hrefresh =>
        rw [refreshed, if_pos hrefresh] at hhandle
        have heq := Option.some.inj hhandle
        exact absurd heq (Nat.ne_of_lt (Nat.lt_succ_self _))
      · have hlt := h.refreshIssued _ hhandle
        omega
  · intro e he
    rw [hsends.timeoutEvent, Option.some.injEq]
    rcases (hsends.mem_events h).mp he with ⟨hold, -, hother⟩ | ⟨hrefresh, rfl⟩ | rfl
    · have hlt := h.queue.issued e hold
      refine iff_of_false (fun hevent => hother ((h.timeout e hold).mp hevent)) ?_
      omega
    · refine iff_of_false (fun hevent => ?_) ?_
      · cases hevent
      · rw [refreshed, if_pos hrefresh]
        exact Nat.ne_of_gt (Nat.lt_succ_self _)
    · exact iff_of_true rfl rfl
  · intro e he hevent
    rw [hsends.last]
    rcases (hsends.mem_events h).mp he with ⟨hold, -, hother⟩ | ⟨-, rfl⟩ | rfl
    · exact absurd ((h.timeout e hold).mp hevent) hother
    · cases hevent
    · exact congrArg (· + timeoutDelay cfg) (now_refreshed cfg w)

/-- Fewer events, and nothing else of concern to the timers. -/
theorem Timers.fewer (h : Timers cfg w) (hsub : w'.app.events.Sublist w.app.events)
    (hdue : ∀ e ∈ w'.app.events, w'.clock.now ≤ e.ts)
    (hrefresh : w'.app.traceRefreshEvent = w.app.traceRefreshEvent)
    (htimeout : w'.app.traceTimeoutEvent = w.app.traceTimeoutEvent)
    (hlast : w'.app.lastTraceSendTime = w.app.lastTraceSendTime)
    (huid : w.clock.uid ≤ w'.clock.uid) : Timers cfg w' := by
  refine ⟨⟨h.queue.distinct.sublist hsub, fun e he => ?_, hdue⟩, fun u hu => ?_, fun u hu => ?_,
    fun hoff => ?_, fun e he hhandle => ?_, fun e he => ?_, fun e he hevent => ?_⟩
  · exact Nat.lt_of_lt_of_le (h.queue.issued e (hsub.subset he)) huid
  · exact Nat.lt_of_lt_of_le (h.refreshIssued u (hrefresh ▸ hu)) huid
  · exact Nat.lt_of_lt_of_le (h.timeoutIssued u (htimeout ▸ hu)) huid
  · exact hrefresh.trans (h.refreshOff hoff)
  · rw [hlast]
    exact h.refresh e (hsub.subset he) (hrefresh ▸ hhandle)
  · rw [htimeout]
    exact h.timeout e (hsub.subset he)
  · rw [hlast]
    exact h.timeoutDue e (hsub.subset he) hevent

/-! ## What a step does -/

/-- Time passes, or something happens that has nothing to do with the Traces. -/
structure Idle (w w' : MobileWorld) : Prop where
  now : w.clock.now ≤ w'.clock.now
  uid : w.clock.uid ≤ w'.clock.uid
  due : (∀ e ∈ w.app.events, w.clock.now ≤ e.ts) → ∀ e ∈ w.app.events, w'.clock.now ≤ e.ts
  events : w'.app.events = w.app.events
  refreshEvent : w'.app.traceRefreshEvent = w.app.traceRefreshEvent
  timeoutEvent : w'.app.traceTimeoutEvent = w.app.traceTimeoutEvent
  last : w'.app.lastTraceSendTime = w.app.lastTraceSendTime
  seq : w'.app.seq = w.app.seq
  rvInterests : w'.app.rvInterests = w.app.rvInterests
  retryCnt : w'.app.traceRetryCnt = w.app.traceRetryCnt
  log : ∃ news, w'.log = w.log ++ news ∧ ∀ o ∈ news, ∃ time name, o = .sentData time name

/-- The answer to the last Trace. -/
def answer (w : MobileWorld) : MobileWorld :=
  { w with
    log := w.log ++ [.answered w.clock.now (w.app.seq - 1)]
    app := { w.app with
      rvData := w.app.rvData + 1
      events := cancel? w.app.traceTimeoutEvent w.app.events
      traceRetryCnt := 0 } }

/-- A Trace that has timed out is not sent again. -/
def giveUp (w : MobileWorld) : MobileWorld :=
  { w with
    log := w.log ++ [.gaveUp w.clock.now (w.app.seq - 1)]
    app := { w.app with
      events := cancel? w.app.traceRefreshEvent w.app.events
      traceRetryCnt := 0 } }

/-- A Trace that has timed out, before it is sent again. -/
def noteTimeout (w : MobileWorld) : MobileWorld :=
  { w with
    log := w.log ++ [.retried w.clock.now (w.app.seq - 1)]
    app := { w.app with events := cancel? w.app.traceRefreshEvent w.app.events } }

/-- One more retry. -/
def countRetry (w : MobileWorld) : MobileWorld :=
  { w with app := { w.app with traceRetryCnt := w.app.traceRetryCnt + 1 } }

/-- What a step can do. -/
inductive Move (cfg : MobileConfig) (w : MobileWorld) : MobileWorld → Prop
  | idle {w' : MobileWorld} (h : Idle w w') : Move cfg w w'
  | associate : Move cfg w (onAssociation cfg w)
  | answer : Move cfg w (answer w)
  | fresh {e : Scheduled MobileEvent} (hnext : IsNext e w.app.events)
      (hevent : e.event = .sendTrace) : Move cfg w (sendTrace cfg (takeEvent e w))
  | giveUp {e : Scheduled MobileEvent} (hnext : IsNext e w.app.events)
      (hevent : e.event = .traceTimeout) (hcnt : 3 ≤ w.app.traceRetryCnt) :
      Move cfg w (giveUp (takeEvent e w))
  | retry {e : Scheduled MobileEvent} (hnext : IsNext e w.app.events)
      (hevent : e.event = .traceTimeout) (hcnt : w.app.traceRetryCnt < 3) :
      Move cfg w (countRetry (sendTrace cfg (noteTimeout (takeEvent e w))))
  | stuck {e : Scheduled MobileEvent} (hnext : IsNext e w.app.events)
      (hevent : e.event = .traceTimeout) (hseq : w.app.seq = 0) :
      Move cfg w (countRetry (noteTimeout (takeEvent e w)))

/-- An update that leaves the schedule and the Traces alone. -/
theorem idle_of_eq {w' : MobileWorld} (hclock : w'.clock = w.clock)
    (hevents : w'.app.events = w.app.events)
    (hrefresh : w'.app.traceRefreshEvent = w.app.traceRefreshEvent)
    (htimeout : w'.app.traceTimeoutEvent = w.app.traceTimeoutEvent)
    (hlast : w'.app.lastTraceSendTime = w.app.lastTraceSendTime)
    (hseq : w'.app.seq = w.app.seq) (hsent : w'.app.rvInterests = w.app.rvInterests)
    (hcnt : w'.app.traceRetryCnt = w.app.traceRetryCnt) (news : List MobileObs)
    (hlog : w'.log = w.log ++ news) (hnews : ∀ o ∈ news, ∃ time name, o = .sentData time name) :
    Idle w w' := by
  refine ⟨?_, ?_, ?_, hevents, hrefresh, htimeout, hlast, hseq, hsent, hcnt, news, hlog, hnews⟩
  · rw [hclock]
  · rw [hclock]
  · rw [hclock]
    exact id

theorem move_onData {name : Name} (h : onData name w = some w') : Move cfg w w' := by
  have hsilent : ∀ o ∈ ([] : List MobileObs), ∃ time name, o = .sentData time name :=
    fun o ho => absurd ho List.not_mem_nil
  unfold onData at h
  split at h
  · obtain rfl := Option.some.inj h
    exact .idle (idle_of_eq rfl rfl rfl rfl rfl rfl rfl rfl [] (List.append_nil _).symm hsilent)
  · split at h
    · cases h
    next number hnumber =>
      dsimp only at h
      split at h
      · obtain rfl := Option.some.inj h
        exact .idle
          (idle_of_eq rfl rfl rfl rfl rfl rfl rfl rfl [] (List.append_nil _).symm hsilent)
      next hseq =>
        rw [not_not] at hseq
        rw [hseq] at h
        obtain rfl := Option.some.inj h
        exact .answer

theorem move_onTraceTimeout {e : Scheduled MobileEvent} (hnext : IsNext e w.app.events)
    (hevent : e.event = .traceTimeout) : Move cfg w (onTraceTimeout cfg (takeEvent e w)) := by
  unfold onTraceTimeout
  split
  next hcnt => exact .giveUp hnext hevent hcnt
  next hcnt =>
    dsimp only
    split
    next hpos => exact .retry hnext hevent (Nat.lt_of_not_le hcnt)
    next hzero =>
      have hseq : (takeEvent e w).app.seq = 0 := by
        by_contra hne
        exact hzero (UInt64.pos_iff_ne_zero.mpr hne)
      exact .stuck hnext hevent hseq

/-- Every step is a move. -/
theorem move_of_step (h : step cfg w a = some w') : Move cfg w w' := by
  have hsilent : ∀ o ∈ ([] : List MobileObs), ∃ time name, o = .sentData time name :=
    fun o ho => absurd ho List.not_mem_nil
  cases a with
  | start =>
      obtain rfl := Option.some.inj h
      exact .idle (idle_of_eq rfl rfl rfl rfl rfl rfl rfl rfl [] (List.append_nil _).symm hsilent)
  | stop =>
      obtain rfl := Option.some.inj h
      exact .idle (idle_of_eq rfl rfl rfl rfl rfl rfl rfl rfl [] (List.append_nil _).symm hsilent)
  | associate =>
      obtain rfl := Option.some.inj h
      exact .associate
  | markHandover anchor =>
      obtain rfl := Option.some.inj h
      exact .idle (idle_of_eq rfl rfl rfl rfl rfl rfl rfl rfl [] (List.append_nil _).symm hsilent)
  | attach current =>
      obtain rfl := Option.some.inj h
      exact .idle (idle_of_eq rfl rfl rfl rfl rfl rfl rfl rfl [] (List.append_nil _).symm hsilent)
  | interest name =>
      obtain rfl := Option.some.inj h
      unfold onInterest
      split
      · exact .idle
          (idle_of_eq rfl rfl rfl rfl rfl rfl rfl rfl [] (List.append_nil _).symm hsilent)
      · refine .idle (idle_of_eq rfl rfl rfl rfl rfl rfl rfl rfl _ rfl fun o ho => ?_)
        exact ⟨_, _, List.mem_singleton.mp ho⟩
  | data name => exact move_onData h
  | fire e =>
      obtain ⟨hnext, hfired⟩ := Option.ite_none_right_eq_some.mp h
      obtain rfl := Option.some.inj hfired
      cases hevent : e.event with
      | sendTrace => exact .fresh hnext hevent
      | traceTimeout => exact move_onTraceTimeout hnext hevent
  | elapse time uid =>
      obtain ⟨⟨htime, huid, hdue⟩, hpassed⟩ := Option.ite_none_right_eq_some.mp h
      obtain rfl := Option.some.inj hpassed
      exact .idle ⟨htime, huid, fun _ => hdue, rfl, rfl, rfl, rfl, rfl, rfl, rfl, [],
        (List.append_nil _).symm, hsilent⟩

theorem sublist_cancel? {handle : Option ℕ} (events : List (Scheduled MobileEvent)) :
    (cancel? handle events).Sublist events := by
  cases handle with
  | none => exact List.Sublist.refl _
  | some uid => exact List.filter_sublist

/-- An event that is taken leaves the timers of the others. -/
theorem Timers.takeEvent (h : Timers cfg w) {e : Scheduled MobileEvent}
    (hnext : IsNext e w.app.events) : Timers cfg (takeEvent e w) :=
  h.fewer List.filter_sublist (fun _ he' => hnext.ts_le (mem_cancel.mp he').1) rfl rfl rfl
    (Nat.le_refl _)

theorem Timers.noteTimeout (h : Timers cfg w) : Timers cfg (noteTimeout w) :=
  h.fewer (sublist_cancel? _) (fun e he => h.queue.due e (mem_cancel?.mp he).1) rfl rfl rfl
    (Nat.le_refl _)

theorem Timers.countRetry (h : Timers cfg w) : Timers cfg (countRetry w) :=
  h.fewer (List.Sublist.refl _) h.queue.due rfl rfl rfl (Nat.le_refl _)

theorem Timers.onAssociation (h : Timers cfg w) : Timers cfg (onAssociation cfg w) := by
  refine ⟨h.queue.schedule _ _, fun u hu => Nat.lt_succ_of_lt (h.refreshIssued u hu),
    fun u hu => Nat.lt_succ_of_lt (h.timeoutIssued u hu), h.refreshOff, fun e he hhandle => ?_,
    fun e he => ?_, fun e he hevent => ?_⟩
  · rcases List.mem_append.mp he with hold | hnew
    · exact h.refresh e hold hhandle
    · rw [List.mem_singleton.mp hnew] at hhandle
      exact absurd (h.refreshIssued _ hhandle) (Nat.lt_irrefl _)
  · rcases List.mem_append.mp he with hold | hnew
    · exact h.timeout e hold
    · rw [List.mem_singleton.mp hnew]
      refine iff_of_false (fun hevent => ?_) fun hhandle => ?_
      · cases hevent
      · exact absurd (h.timeoutIssued _ hhandle) (Nat.lt_irrefl _)
  · rcases List.mem_append.mp he with hold | hnew
    · exact h.timeoutDue e hold hevent
    · rw [List.mem_singleton.mp hnew] at hevent
      cases hevent

theorem Timers.move (h : Timers cfg w) (hmove : Move cfg w w') : Timers cfg w' := by
  cases hmove with
  | idle hidle =>
      refine h.fewer ?_ ?_ hidle.refreshEvent hidle.timeoutEvent hidle.last hidle.uid
      · rw [hidle.events]
      · rw [hidle.events]
        exact hidle.due h.queue.due
  | associate => exact h.onAssociation
  | answer =>
      exact h.fewer (sublist_cancel? _) (fun e he => h.queue.due e (mem_cancel?.mp he).1)
        rfl rfl rfl (Nat.le_refl _)
  | fresh hnext hevent => exact (h.takeEvent hnext).sendTrace
  | giveUp hnext hevent hcnt =>
      have htaken := h.takeEvent hnext
      exact htaken.fewer (sublist_cancel? _)
        (fun e he => htaken.queue.due e (mem_cancel?.mp he).1) rfl rfl rfl (Nat.le_refl _)
  | retry hnext hevent hcnt => exact (h.takeEvent hnext).noteTimeout.sendTrace.countRetry
  | stuck hnext hevent hseq => exact (h.takeEvent hnext).noteTimeout.countRetry

theorem timers_initial (cfg : MobileConfig) (current : UInt64) (c : Clock) :
    Timers cfg (initial current c) :=
  { queue := QueueInv.nil c
    refreshIssued := fun _ hu => nomatch hu
    timeoutIssued := fun _ hu => nomatch hu
    refreshOff := fun _ => rfl
    refresh := fun _ he => absurd he List.not_mem_nil
    timeout := fun _ he => absurd he List.not_mem_nil
    timeoutDue := fun _ he => absurd he List.not_mem_nil }

theorem Reachable.timers (h : Reachable cfg w) : Timers cfg w :=
  h.induct (Timers cfg) (timers_initial cfg) fun _ _ _ hv hstep => hv.move (move_of_step hstep)

/-- What every move keeps holds in every state, with the timers at hand. -/
theorem Reachable.of_moves (Inv : MobileWorld → Prop)
    (hinitial : ∀ current c, Inv (initial current c))
    (hmove : ∀ v v', Timers cfg v → Inv v → Move cfg v v' → Inv v') (h : Reachable cfg w) :
    Inv w := by
  refine (h.induct (fun v => Timers cfg v ∧ Inv v)
    (fun current c => ⟨timers_initial cfg current c, hinitial current c⟩)
    (fun v a v' hv hstep => ?_)).2
  have hmoves := move_of_step hstep
  exact ⟨hv.1.move hmoves, hmove v v' hv.1 hv.2 hmoves⟩

/-! ## Refreshes come first -/

/-- The time of a Trace. -/
def MobileObs.traceTime? : MobileObs → Option ℕ
  | .trace time _ _ _ => some time
  | _ => none

/-- When the mobile sent Traces. -/
def traceTimes (log : List MobileObs) : List ℕ := log.filterMap MobileObs.traceTime?

theorem traceTimes_append (log log' : List MobileObs) :
    traceTimes (log ++ log') = traceTimes log ++ traceTimes log' := List.filterMap_append

/-- The last Trace is the one that the mobile remembers. -/
structure Remembered (w : MobileWorld) : Prop where
  unsent : w.app.rvInterests = 0 → traceTimes w.log = []
  last : w.app.rvInterests ≠ 0 →
    (traceTimes w.log).getLast? = some w.app.lastTraceSendTime
  past : w.app.lastTraceSendTime ≤ w.clock.now

theorem Remembered.keep (h : Remembered w) (hnow : w.clock.now ≤ w'.clock.now)
    (hsent : w'.app.rvInterests = w.app.rvInterests)
    (hlast : w'.app.lastTraceSendTime = w.app.lastTraceSendTime) {news : List MobileObs}
    (hlog : w'.log = w.log ++ news) (hnews : traceTimes news = []) : Remembered w' := by
  have htimes : traceTimes w'.log = traceTimes w.log := by
    rw [hlog, traceTimes_append, hnews, List.append_nil]
  refine ⟨fun hnone => ?_, fun hsome => ?_, ?_⟩
  · rw [htimes]
    exact h.unsent (hsent ▸ hnone)
  · rw [htimes, hlast]
    exact h.last (hsent ▸ hsome)
  · rw [hlast]
    exact Nat.le_trans h.past hnow

theorem remembered_sendTrace (cfg : MobileConfig) (w : MobileWorld) :
    Remembered (sendTrace cfg w) := by
  have hsends := sends_sendTrace cfg w
  refine ⟨fun hnone => ?_, fun _ => ?_, ?_⟩
  · rw [hsends.rvInterests] at hnone
    cases hnone
  · rw [hsends.log, hsends.last, traceTimes_append]
    exact List.getLast?_concat
  · rw [hsends.last, hsends.clock]
    exact Nat.le_of_eq (now_refreshed cfg w).symm

theorem traceTimes_of_sentData {news : List MobileObs}
    (hnews : ∀ o ∈ news, ∃ time name, o = .sentData time name) : traceTimes news = [] := by
  rw [traceTimes, List.filterMap_eq_nil_iff]
  intro o ho
  obtain ⟨time, name, rfl⟩ := hnews o ho
  rfl

theorem Remembered.takeEvent (h : Remembered w) (htimers : Timers cfg w)
    {e : Scheduled MobileEvent} (hnext : IsNext e w.app.events) : Remembered (takeEvent e w) :=
  h.keep (htimers.queue.due e hnext.1) rfl rfl (List.append_nil _).symm rfl

theorem Remembered.move (h : Remembered w) (htimers : Timers cfg w) (hmove : Move cfg w w') :
    Remembered w' := by
  cases hmove with
  | idle hidle =>
      obtain ⟨news, hlog, hnews⟩ := hidle.log
      exact h.keep hidle.now hidle.rvInterests hidle.last hlog (traceTimes_of_sentData hnews)
  | associate => exact h.keep (Nat.le_refl _) rfl rfl rfl rfl
  | answer => exact h.keep (Nat.le_refl _) rfl rfl rfl rfl
  | fresh hnext hevent => exact remembered_sendTrace cfg _
  | giveUp hnext hevent hcnt =>
      exact (h.takeEvent htimers hnext).keep (Nat.le_refl _) rfl rfl rfl rfl
  | retry hnext hevent hcnt =>
      exact (remembered_sendTrace cfg _).keep (Nat.le_refl _) rfl rfl (List.append_nil _).symm rfl
  | stuck hnext hevent hseq =>
      exact (h.takeEvent htimers hnext).keep (Nat.le_refl _) rfl rfl rfl rfl

theorem remembered_initial (current : UInt64) (c : Clock) : Remembered (initial current c) :=
  ⟨fun _ => rfl, fun hsome => absurd rfl hsome, Nat.zero_le _⟩

/-- No Trace has timed out, and none will: a refresh is scheduled before each timeout. -/
structure Forestalled (cfg : MobileConfig) (w : MobileWorld) : Prop where
  remembered : Remembered w
  silent : ∀ time seq, .retried time seq ∉ w.log ∧ .gaveUp time seq ∉ w.log
  pending : w.app.rvInterests ≠ 0 →
    ∃ e ∈ w.app.events, w.app.traceRefreshEvent = some e.uid
  before : ∀ e ∈ w.app.events, e.event = .traceTimeout →
    ∃ e' ∈ w.app.events, w.app.traceRefreshEvent = some e'.uid ∧ e'.uid < e.uid
  spaced : (traceTimes w.log).IsChain fun t t' => t ≤ t' ∧ t' ≤ t + refreshDelay cfg

/-- A timeout is never the next event. -/
theorem Forestalled.not_timeout (h : Forestalled cfg w) (htimers : Timers cfg w)
    (hle : refreshDelay cfg ≤ timeoutDelay cfg) {e : Scheduled MobileEvent}
    (hnext : IsNext e w.app.events) : e.event ≠ .traceTimeout := by
  intro hevent
  obtain ⟨e', he', hhandle, huid⟩ := h.before e hnext.1 hevent
  have hrefresh := (htimers.refresh e' he' hhandle).2
  have htimeout := htimers.timeoutDue e hnext.1 hevent
  have hkeys : e.ts < e'.ts ∨ (e.ts = e'.ts ∧ e.uid ≤ e'.uid) := hnext.2 e' he'
  omega

theorem Forestalled.sendTrace (h : Forestalled cfg w) (htimers : Timers cfg w)
    (hrefresh : cfg.refreshInterval ≠ 0) {e : Scheduled MobileEvent}
    (hnext : IsNext e w.app.events) : Forestalled cfg (sendTrace cfg (takeEvent e w)) := by
  have htaken := htimers.takeEvent hnext
  have hsends := sends_sendTrace cfg (takeEvent e w)
  have hnew : nextRefresh cfg (takeEvent e w) ∈
      (StatimMobile.sendTrace cfg (takeEvent e w)).app.events :=
    (hsends.mem_events htaken).mpr (Or.inr (Or.inl ⟨hrefresh, rfl⟩))
  have hhandle : (StatimMobile.sendTrace cfg (takeEvent e w)).app.traceRefreshEvent =
      some (nextRefresh cfg (takeEvent e w)).uid := by
    rw [hsends.refreshEvent, if_pos hrefresh]
    rfl
  refine ⟨remembered_sendTrace cfg _, fun time seq => ?_,
    fun _ => ⟨_, hnew, hhandle⟩, fun e' he' hevent => ⟨_, hnew, hhandle, ?_⟩, ?_⟩
  · rw [hsends.log, List.mem_append, List.mem_append, List.mem_singleton, List.mem_singleton]
    exact ⟨not_or.mpr ⟨(h.silent time seq).1, nofun⟩, not_or.mpr ⟨(h.silent time seq).2, nofun⟩⟩
  · rcases (hsends.mem_events htaken).mp he' with ⟨hold, -, hother⟩ | ⟨-, rfl⟩ | rfl
    · exact absurd ((htaken.timeout e' hold).mp hevent) hother
    · cases hevent
    · have huid : (nextTimeout cfg (takeEvent e w)).uid = (refreshed cfg (takeEvent e w)).uid := rfl
      rw [huid, refreshed, if_pos hrefresh]
      exact Nat.lt_succ_self _
  · have htimes : traceTimes (StatimMobile.sendTrace cfg (takeEvent e w)).log =
        traceTimes w.log ++ [e.ts] := by
      rw [hsends.log, traceTimes_append]
      rfl
    rw [htimes, List.isChain_append]
    refine ⟨h.spaced, List.isChain_singleton _, fun t ht t' ht' => ?_⟩
    obtain rfl : e.ts = t' := Option.some.inj ht'
    by_cases hsent : w.app.rvInterests = 0
    · rw [h.remembered.unsent hsent] at ht
      cases ht
    · rw [h.remembered.last hsent] at ht
      obtain rfl := Option.some.inj ht
      obtain ⟨e', he', hpending⟩ := h.pending hsent
      have hrefreshed := (htimers.refresh e' he' hpending).2
      have hfirst := hnext.ts_le he'
      have hdue := htimers.queue.due e hnext.1
      have hpast := h.remembered.past
      omega

theorem Forestalled.move (h : Forestalled cfg w) (htimers : Timers cfg w)
    (hrefresh : cfg.refreshInterval ≠ 0) (hle : refreshDelay cfg ≤ timeoutDelay cfg)
    (hmove : Move cfg w w') : Forestalled cfg w' := by
  have hremembered := h.remembered.move htimers hmove
  cases hmove with
  | idle hidle =>
      obtain ⟨news, hlog, hnews⟩ := hidle.log
      refine ⟨hremembered, fun time seq => ?_, ?_, ?_, ?_⟩
      · rw [hlog, List.mem_append, List.mem_append]
        refine ⟨not_or.mpr ⟨(h.silent time seq).1, fun hmem => ?_⟩,
          not_or.mpr ⟨(h.silent time seq).2, fun hmem => ?_⟩⟩
        · obtain ⟨_, _, heq⟩ := hnews _ hmem
          cases heq
        · obtain ⟨_, _, heq⟩ := hnews _ hmem
          cases heq
      · rw [hidle.rvInterests, hidle.events, hidle.refreshEvent]
        exact h.pending
      · rw [hidle.events, hidle.refreshEvent]
        exact h.before
      · rw [hlog, traceTimes_append, traceTimes_of_sentData hnews, List.append_nil]
        exact h.spaced
  | associate =>
      have hlog : traceTimes (onAssociation cfg w).log = traceTimes w.log := by
        have happend : (onAssociation cfg w).log = w.log ++ [.associated w.clock.now] := rfl
        rw [happend, traceTimes_append]
        exact List.append_nil _
      refine ⟨hremembered, fun time seq => ?_, fun hsent => ?_, fun e he hevent => ?_, ?_⟩
      · have happend : (onAssociation cfg w).log = w.log ++ [.associated w.clock.now] := rfl
        rw [happend, List.mem_append, List.mem_append, List.mem_singleton, List.mem_singleton]
        exact ⟨not_or.mpr ⟨(h.silent time seq).1, nofun⟩,
          not_or.mpr ⟨(h.silent time seq).2, nofun⟩⟩
      · obtain ⟨e, he, hhandle⟩ := h.pending hsent
        exact ⟨e, List.mem_append_left _ he, hhandle⟩
      · rcases List.mem_append.mp he with hold | hnew
        · obtain ⟨e', he', hbefore⟩ := h.before e hold hevent
          exact ⟨e', List.mem_append_left _ he', hbefore⟩
        · rw [List.mem_singleton.mp hnew] at hevent
          cases hevent
      · rw [hlog]
        exact h.spaced
  | answer =>
      have happend : (answer w).log =
        w.log ++ [.answered w.clock.now (w.app.seq - 1)] := rfl
      have hlog : traceTimes (answer w).log = traceTimes w.log := by
        rw [happend, traceTimes_append]
        exact List.append_nil _
      refine ⟨hremembered, fun time seq => ?_, fun hsent => ?_, fun e he hevent => ?_, ?_⟩
      · rw [happend, List.mem_append, List.mem_append, List.mem_singleton, List.mem_singleton]
        exact ⟨not_or.mpr ⟨(h.silent time seq).1, nofun⟩,
          not_or.mpr ⟨(h.silent time seq).2, nofun⟩⟩
      · obtain ⟨e, he, hhandle⟩ := h.pending hsent
        refine ⟨e, mem_cancel?.mpr ⟨he, fun htimeout => ?_⟩, hhandle⟩
        have hevent := (htimers.timeout e he).mpr htimeout
        rw [(htimers.refresh e he hhandle).1] at hevent
        cases hevent
      · obtain ⟨hold, hother⟩ := mem_cancel?.mp he
        exact absurd ((htimers.timeout e hold).mp hevent) hother
      · rw [hlog]
        exact h.spaced
  | fresh hnext hevent => exact h.sendTrace htimers hrefresh hnext
  | giveUp hnext hevent hcnt => exact absurd hevent (h.not_timeout htimers hle hnext)
  | retry hnext hevent hcnt => exact absurd hevent (h.not_timeout htimers hle hnext)
  | stuck hnext hevent hseq => exact absurd hevent (h.not_timeout htimers hle hnext)

/-- Where a refresh comes no later than a timeout, no Trace ever times out.  Once a mobile has
sent a Trace it goes on to send them, whatever becomes of it, and never lets more than the
refresh interval pass between two. -/
theorem refresh_forestalls_timeout (h : Reachable cfg w) (hrefresh : cfg.refreshInterval ≠ 0)
    (hle : refreshDelay cfg ≤ timeoutDelay cfg) :
    (∀ time seq, .retried time seq ∉ w.log ∧ .gaveUp time seq ∉ w.log) ∧
      (traceTimes w.log).IsChain (fun t t' => t ≤ t' ∧ t' ≤ t + refreshDelay cfg) ∧
      ∀ t ∈ (traceTimes w.log).getLast?, ∃ e ∈ w.app.events,
        e.event = .sendTrace ∧ e.ts = t + refreshDelay cfg := by
  have hforestalled : Forestalled cfg w := by
    refine h.of_moves (Forestalled cfg) (fun current c => ?_)
      fun v v' htimers hv hmove => hv.move htimers hrefresh hle hmove
    exact ⟨remembered_initial current c, fun _ _ => ⟨List.not_mem_nil, List.not_mem_nil⟩,
      fun hsent => absurd rfl hsent, fun _ he => absurd he List.not_mem_nil, List.isChain_nil⟩
  refine ⟨hforestalled.silent, hforestalled.spaced, fun t ht => ?_⟩
  by_cases hsent : w.app.rvInterests = 0
  · rw [hforestalled.remembered.unsent hsent] at ht
    cases ht
  · rw [hforestalled.remembered.last hsent] at ht
    obtain rfl := Option.some.inj ht
    obtain ⟨e, he, hhandle⟩ := hforestalled.pending hsent
    exact ⟨e, he, h.timers.refresh e he hhandle⟩

/-! ## A run -/

/-- A mobile whose refresh interval is the lifetime of its Traces. -/
def refreshingConfig : MobileConfig where
  rvPrefix := [.generic [0x72]]
  dataPrefix := [.generic [0x61]]
  traceLifetime := 20
  refreshInterval := 20
  traceDelay := 10
  throughSeconds := id

/-- A Trace after the association, and another one at the refresh. -/
def refreshingActions : List MobileAction :=
  [.start, .associate, .fire ⟨10, 0, .sendTrace⟩, .fire ⟨30, 1, .sendTrace⟩]

/-- The state after these. -/
def refreshingRun : MobileWorld :=
  (refreshingActions.foldlM (step refreshingConfig) (initial 0 ⟨0, 0⟩)).get (by decide)

theorem reachable_refreshingRun : Reachable refreshingConfig refreshingRun := by
  refine ⟨0, ⟨0, 0⟩, refreshingActions, ?_⟩
  unfold refreshingRun
  rw [Option.some_get]

theorem refresh_forestalls_timeout_refreshingRun :
    ∃ e ∈ refreshingRun.app.events, e.event = .sendTrace ∧ e.ts = 30 + 20 :=
  (refresh_forestalls_timeout reachable_refreshingRun (by decide) (by decide)).2.2 30 (by decide)

end StatimMobile

end Statim
