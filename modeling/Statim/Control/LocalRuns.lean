import Statim.Control.LocalInvariant

/-!
# Runs of the local route controller

Admission of a Trace update, the step relation of a controller with its timers
and callbacks, and the representation invariant in every state a run can reach.
-/

namespace Statim

open Support

namespace LocalRouteController

variable {ω : Type} {cfg : LocalConfig} {cbs : LocalCallbacks ω} {w w' : LocalWorld ω}
  {p q : Name} {u : Admission}

/-! ## The lifetime timer of a new generation -/

/-- The lifetime event of an update admitted now. -/
def lifetimeEvent (u : Admission) (c : Clock) : Scheduled LocalEvent :=
  c.schedule u.lifetime.toNat (.expireEntryBySeq u.pfx u.seq)

/-- The retry event of an update admitted now. -/
def retryEvent (cfg : LocalConfig) (u : Admission) (c : Clock) : Scheduled LocalEvent :=
  c.schedule cfg.controllerRetryTimeout.toNat (.onControllerRetryTimeout u.pfx u.seq)

/-- What restarting the lifetime timer does. -/
structure Restarts (u : Admission) (w w' : LocalWorld ω) : Prop where
  now : w'.clock.now = w.clock.now
  uid : w'.clock.uid = if 0 < u.lifetime then w.clock.uid + 1 else w.clock.uid
  seq : w'.ctl.seqMap = w.ctl.seqMap
  expiry : w'.ctl.routeExpiries = w.ctl.routeExpiries
  fib : w'.ctl.temporaryFib = w.ctl.temporaryFib
  pending : w'.ctl.pendingControllerRequests = w.ctl.pendingControllerRequests
  seen : w'.ctl.highestSeenSeq = w.ctl.highestSeenSeq
  log : w'.log = w.log
  timer : ∀ q, w'.ctl.lifetimeTimers[q]? =
    if u.pfx = q then (if 0 < u.lifetime then some w.clock.uid else none)
    else w.ctl.lifetimeTimers[q]?
  events : ∀ e, e ∈ w'.ctl.events ↔
    (e ∈ w.ctl.events ∧ w.ctl.lifetimeTimers[u.pfx]? ≠ some e.uid) ∨
      (0 < u.lifetime ∧ e = lifetimeEvent u w.clock)

theorem restarts_restartLifetimeTimer (u : Admission) (w : LocalWorld ω) :
    Restarts u w (restartLifetimeTimer u w) := by
  unfold restartLifetimeTimer
  by_cases hlease : 0 < u.lifetime
  · simp only [hlease, if_true]
    exact
      { now := rfl
        uid := by simp [hlease]
        seq := rfl
        expiry := rfl
        fib := rfl
        pending := rfl
        seen := rfl
        log := rfl
        timer := fun q => by
          by_cases hq : u.pfx = q
          · simp [hq, hlease]
          · simp [hq, Std.TreeMap.getElem?_insert, Std.TreeMap.getElem?_erase]
        events := fun e => by
          rw [List.mem_append, mem_cancel?, List.mem_singleton]
          simp [hlease, lifetimeEvent] }
  · simp only [hlease, if_false]
    exact
      { now := rfl
        uid := by simp [hlease]
        seq := rfl
        expiry := rfl
        fib := rfl
        pending := rfl
        seen := rfl
        log := rfl
        timer := fun q => by simp [hlease, Std.TreeMap.getElem?_erase]
        events := fun e => by simp [mem_cancel?, hlease] }

theorem queue_restartLifetimeTimer (u : Admission) (w : LocalWorld ω)
    (h : QueueInv w.clock w.ctl.events) :
    QueueInv (restartLifetimeTimer u w).clock (restartLifetimeTimer u w).ctl.events := by
  unfold restartLifetimeTimer
  split
  · exact (h.cancel? _).schedule _ _
  · exact h.cancel? _

/-! ## The staged state -/

/-- The state after the new generation is published and its lifetime timer is
restarted, before the request is recorded. -/
def entered (u : Admission) (w : LocalWorld ω) : LocalWorld ω :=
  restartLifetimeTimer u { w with
    ctl := replaceEntry w.clock.now u w.ctl
    log := w.log ++ [.admitted u] }

theorem stage_of_not_retrying (hretry : ¬Retrying cfg cbs) (u : Admission)
    (w : LocalWorld ω) : ∃ counters, stage cfg cbs u w =
      { entered u w with ctl := { (entered u w).ctl with counters := counters } } := by
  unfold stage
  split
  next hrequest =>
    have htimeout : ¬0 < cfg.controllerRetryTimeout := fun h => hretry ⟨hrequest, h⟩
    simp only [replacePending, htimeout, if_false]
    exact ⟨_, rfl⟩
  next => exact ⟨_, rfl⟩

theorem stage_of_retrying (hretry : Retrying cfg cbs) (u : Admission) (w : LocalWorld ω) :
    ∃ counters, stage cfg cbs u w =
      { entered u w with
        clock := (entered u w).clock.next
        ctl := { (entered u w).ctl with
          counters := counters
          events := cancel? ((entered u w).ctl.pendingControllerRequests[u.pfx]?.map (·.timer))
            (entered u w).ctl.events ++ [retryEvent cfg u (entered u w).clock]
          pendingControllerRequests :=
            (entered u w).ctl.pendingControllerRequests.insert u.pfx
              { seq := u.seq
                retriesLeft := cfg.controllerRetryLimit
                timer := (entered u w).clock.uid
                msg := u.packetIn } } } := by
  simp only [stage, hretry.1, if_true, replacePending, hretry.2]
  exact ⟨_, rfl⟩

theorem LocalInv.pending_of_not_retrying {busy : Option (Name × Nat)}
    (h : LocalInv cfg cbs busy w) (hretry : ¬Retrying cfg cbs) (p : Name) :
    w.ctl.pendingControllerRequests[p]? = none := by
  rcases h.each p with hvacant | ⟨u, hres⟩
  · exact hvacant.pending
  · obtain rfl : u.pfx = p := hres.pfx
    exact (hres.pending.2 hretry).1

/-- The timer a pending record names was issued in the past. -/
theorem LocalInv.pending_timer_lt (h : LocalInv cfg cbs none w) {uid : Nat}
    (huid : w.ctl.pendingControllerRequests[p]?.map (·.timer) = some uid) :
    uid < w.clock.uid := by
  obtain ⟨pending, hstored, rfl⟩ := Option.map_eq_some_iff.mp huid
  rcases h.each p with hvacant | ⟨u, hres⟩
  · rw [hvacant.pending] at hstored
    cases hstored
  obtain rfl : u.pfx = p := hres.pfx
  by_cases hretry : Retrying cfg cbs
  · obtain ⟨pending', hstored', -, -, -, -, -, hidle⟩ := hres.pending.1 hretry
    obtain rfl : pending' = pending := Option.some.inj (hstored'.symm.trans hstored)
    obtain ⟨⟨e, he, heuid, -⟩, -⟩ := hidle (by simp)
    exact heuid ▸ h.queue.issued e he
  · rw [h.pending_of_not_retrying hretry] at hstored
    cases hstored

/-- After staging, the events of the prefix are the new lifetime event and the
new retry event, as far as there are any. -/
theorem LocalInv.mem_stage_events (h : LocalInv cfg cbs none w) (u : Admission)
    (e : Scheduled LocalEvent) :
    e ∈ (stage cfg cbs u w).ctl.events ↔
      (e ∈ w.ctl.events ∧ e.event.pfx ≠ u.pfx) ∨
      (0 < u.lifetime ∧ e = lifetimeEvent u w.clock) ∨
      (Retrying cfg cbs ∧ e = retryEvent cfg u (entered u w).clock) := by
  have hr : Restarts u _ (entered u w) := restarts_restartLifetimeTimer u _
  have hhandles := h.mem_cancel_handles u.pfx e
  rw [Support.mem_cancel?, Support.mem_cancel?] at hhandles
  by_cases hretry : Retrying cfg cbs
  · obtain ⟨counters, heq⟩ := stage_of_retrying hretry u w
    have hpending : (entered u w).ctl.pendingControllerRequests =
        w.ctl.pendingControllerRequests := hr.pending
    -- the old retry timer cannot be the lifetime event scheduled just now
    have hnew : e = lifetimeEvent u w.clock →
        w.ctl.pendingControllerRequests[u.pfx]?.map (·.timer) ≠ some e.uid := by
      rintro rfl huid
      exact Nat.lt_irrefl _ (h.pending_timer_lt huid)
    rw [heq]
    simp only [List.mem_append, Support.mem_cancel?, List.mem_singleton, hr.events, hpending,
      hretry, true_and]
    rw [← hhandles, or_and_right, or_assoc]
    refine or_congr_right (or_congr_left ?_)
    exact and_iff_left_of_imp fun hlife => hnew hlife.2
  · obtain ⟨counters, heq⟩ := stage_of_not_retrying hretry u w
    rw [heq]
    simp only [hr.events, hretry, false_and, or_false]
    rw [← hhandles, h.pending_of_not_retrying hretry]
    refine or_congr_left (and_iff_left ?_).symm
    simp

theorem LocalInv.queue_stage (h : LocalInv cfg cbs none w) (u : Admission) :
    QueueInv (stage cfg cbs u w).clock (stage cfg cbs u w).ctl.events := by
  have hentered : QueueInv (entered u w).clock (entered u w).ctl.events :=
    queue_restartLifetimeTimer u _ h.queue
  by_cases hretry : Retrying cfg cbs
  · obtain ⟨counters, heq⟩ := stage_of_retrying hretry u w
    rw [heq]
    exact (hentered.cancel? _).schedule _ _
  · obtain ⟨counters, heq⟩ := stage_of_not_retrying hretry u w
    rw [heq]
    exact hentered

/-- The part of the controller that staging changes only at the prefix of `u`. -/
structure Stages (u : Admission) (w w' : LocalWorld ω) : Prop where
  now : w'.clock.now = w.clock.now
  seq : ∀ q, w'.ctl.seqMap[q]? = if u.pfx = q then some u.seq else w.ctl.seqMap[q]?
  expiry : ∀ q, w'.ctl.routeExpiries[q]? =
    if u.pfx = q then some u.routeExpiry else w.ctl.routeExpiries[q]?
  fib : w'.ctl.temporaryFib = (replaceEntry w.clock.now u w.ctl).temporaryFib
  timer : ∀ q, w'.ctl.lifetimeTimers[q]? =
    if u.pfx = q then (if 0 < u.lifetime then some w.clock.uid else none)
    else w.ctl.lifetimeTimers[q]?
  seen : w'.ctl.highestSeenSeq = w.ctl.highestSeenSeq
  log : w'.log = w.log ++ [.admitted u]

theorem stages_entered (u : Admission) (w : LocalWorld ω) : Stages u w (entered u w) := by
  have hr : Restarts u _ (entered u w) := restarts_restartLifetimeTimer u _
  exact
    { now := hr.now
      seq := fun q => by
        rw [hr.seq]
        simp [replaceEntry, Std.TreeMap.getElem?_insert]
      expiry := fun q => by
        rw [hr.expiry]
        simp [replaceEntry, Std.TreeMap.getElem?_insert]
      fib := hr.fib
      timer := hr.timer
      seen := hr.seen
      log := hr.log }

theorem stages_stage (cfg : LocalConfig) (cbs : LocalCallbacks ω) (u : Admission)
    (w : LocalWorld ω) : Stages u w (stage cfg cbs u w) := by
  have hentered := stages_entered u w
  by_cases hretry : Retrying cfg cbs
  · obtain ⟨counters, heq⟩ := stage_of_retrying hretry u w
    rw [heq]
    exact { hentered with }
  · obtain ⟨counters, heq⟩ := stage_of_not_retrying hretry u w
    rw [heq]
    exact { hentered with }

theorem getElem?_pending_stage (hretry : Retrying cfg cbs) (u : Admission) (w : LocalWorld ω)
    (q : Name) :
    (stage cfg cbs u w).ctl.pendingControllerRequests[q]? =
      if u.pfx = q then some
        { seq := u.seq, retriesLeft := cfg.controllerRetryLimit
          timer := (entered u w).clock.uid, msg := u.packetIn }
      else w.ctl.pendingControllerRequests[q]? := by
  obtain ⟨counters, heq⟩ := stage_of_retrying hretry u w
  have hr : Restarts u _ (entered u w) := restarts_restartLifetimeTimer u _
  rw [heq]
  simp [Std.TreeMap.getElem?_insert, hr.pending, replaceEntry]

theorem pending_stage_of_not_retrying (hretry : ¬Retrying cfg cbs) (u : Admission)
    (w : LocalWorld ω) :
    (stage cfg cbs u w).ctl.pendingControllerRequests = w.ctl.pendingControllerRequests := by
  obtain ⟨counters, heq⟩ := stage_of_not_retrying hretry u w
  have hr : Restarts u _ (entered u w) := restarts_restartLifetimeTimer u _
  rw [heq]
  exact hr.pending

theorem LocalInv.stage_agreesAt (h : LocalInv cfg cbs none w) (hq : u.pfx ≠ q) :
    AgreesAt q w (stage cfg cbs u w) where
  now := Nat.le_of_eq (stages_stage cfg cbs u w).now.symm
  seq := ((stages_stage cfg cbs u w).seq q).trans (if_neg hq)
  expiry := ((stages_stage cfg cbs u w).expiry q).trans (if_neg hq)
  fib := by
    rw [(stages_stage cfg cbs u w).fib]
    simp only [replaceEntry]
    rw [TemporaryForwardingTable.getElem?_insertUntil_of_ne _ hq]
    split
    · rw [TemporaryForwardingTable.getElem?_erase, if_neg hq]
    · rfl
  timer := ((stages_stage cfg cbs u w).timer q).trans (if_neg hq)
  pending := by
    by_cases hretry : Retrying cfg cbs
    · rw [getElem?_pending_stage hretry, if_neg hq]
    · rw [pending_stage_of_not_retrying hretry]
  events e he := by
    rw [h.mem_stage_events u e]
    constructor
    · rintro (⟨hmem, -⟩ | ⟨-, rfl⟩ | ⟨-, rfl⟩)
      · exact hmem
      · exact absurd he hq
      · exact absurd he hq
    · exact fun hmem => Or.inl ⟨hmem, fun hpfx => hq (hpfx.symm.trans he)⟩
  last := by rw [(stages_stage cfg cbs u w).log, lastAdmission_admitted, if_neg hq]

/-- A prefix that is not in `m_seqMap` is not in the temporary FIB either, so the
replaced entry has the new hop alone. -/
theorem LocalInv.stage_fibHolds (h : LocalInv cfg cbs none w) (u : Admission) :
    FibHolds (stage cfg cbs u w) u := by
  have habsent : (if w.ctl.seqMap.contains u.pfx then w.ctl.temporaryFib.erase u.pfx
      else w.ctl.temporaryFib).entries[u.pfx]? = none := by
    split
    · simp [TemporaryForwardingTable.getElem?_erase]
    next hcontains =>
      rcases h.each u.pfx with hvacant | ⟨v, hres⟩
      · exact hvacant.fib
      · refine absurd ?_ hcontains
        rw [Std.TreeMap.contains_eq_isSome_getElem?, hres.seq]
        rfl
  obtain ⟨entry, hstored, hpfx, hone⟩ := ForwardingEntry.exists_oneHop_insertUntil habsent
    w.clock.now u.port u.tableDeadline
  unfold FibHolds
  rw [(stages_stage cfg cbs u w).fib]
  simp only [replaceEntry, hstored]
  exact ⟨hpfx, hone⟩

theorem LocalInv.stage_timerHolds (h : LocalInv cfg cbs none w)
    (htime : u.time = w.clock.now) : TimerHolds (stage cfg cbs u w) u := by
  have hevents := h.mem_stage_events u
  have htimer := (stages_stage cfg cbs u w).timer u.pfx
  rw [if_pos rfl] at htimer
  unfold TimerHolds
  split
  next hlease =>
    rw [if_pos hlease] at htimer
    refine ⟨w.clock.uid, htimer, (hevents _).mpr (Or.inr (Or.inl ⟨hlease, ?_⟩)), ?_⟩
    · rw [htime]
      rfl
    · intro e he s hs
      rcases (hevents e).mp he with ⟨-, hpfx⟩ | ⟨-, rfl⟩ | ⟨-, rfl⟩
      · exact absurd (by rw [hs]; rfl) hpfx
      · rfl
      · cases hs
  next hlease =>
    rw [if_neg hlease] at htimer
    refine ⟨htimer, ?_⟩
    intro e he s hs
    rcases (hevents e).mp he with ⟨-, hpfx⟩ | ⟨hlease', -⟩ | ⟨-, rfl⟩
    · exact absurd (by rw [hs]; rfl) hpfx
    · exact hlease hlease'
    · cases hs

theorem LocalInv.stage_pendingHolds (h : LocalInv cfg cbs none w) (u : Admission) :
    PendingHolds cfg cbs none (stage cfg cbs u w) u := by
  have hevents := h.mem_stage_events u
  refine ⟨fun hretry => ?_, fun hretry => ?_⟩
  · refine ⟨_, (getElem?_pending_stage hretry u w u.pfx).trans (if_pos rfl), rfl, rfl,
      Int.min_le_right _ _, Int.le_refl _, by simp, fun _ => ?_⟩
    refine ⟨⟨_, (hevents _).mpr (Or.inr (Or.inr ⟨hretry, rfl⟩)), rfl, rfl⟩, ?_⟩
    intro e he s hs
    rcases (hevents e).mp he with ⟨-, hpfx⟩ | ⟨-, rfl⟩ | ⟨-, rfl⟩
    · exact absurd (by rw [hs]; rfl) hpfx
    · cases hs
    · rfl
  · rw [pending_stage_of_not_retrying hretry, h.pending_of_not_retrying hretry]
    refine ⟨rfl, fun e he s hs => ?_⟩
    rcases (hevents e).mp he with ⟨-, hpfx⟩ | ⟨-, rfl⟩ | ⟨hyes, -⟩
    · exact absurd (by rw [hs]; rfl) hpfx
    · cases hs
    · exact hretry hyes

theorem LocalInv.stage_resident (h : LocalInv cfg cbs none w) (htime : u.time = w.clock.now) :
    Resident cfg cbs none (stage cfg cbs u w) u.pfx u where
  last := by rw [(stages_stage cfg cbs u w).log, lastAdmission_admitted, if_pos rfl]
  seq := ((stages_stage cfg cbs u w).seq u.pfx).trans (if_pos rfl)
  expiry := ((stages_stage cfg cbs u w).expiry u.pfx).trans (if_pos rfl)
  fib := h.stage_fibHolds u
  timer := h.stage_timerHolds htime
  pending := h.stage_pendingHolds u

theorem LocalInv.stage (h : LocalInv cfg cbs none w) (htime : u.time = w.clock.now) :
    LocalInv cfg cbs none (stage cfg cbs u w) where
  queue := h.queue_stage u
  fired _ _ hbusy := nomatch hbusy
  each q := by
    by_cases hq : u.pfx = q
    · subst hq
      exact Or.inr ⟨u, h.stage_resident htime⟩
    · exact each_frame (h.each q) (h.stage_agreesAt hq)

/-! ## Admission -/

/-- Passing the guard raises the watermark above every earlier value, or does
nothing if the guard is off. -/
theorem passGuard_eq_some {ctl ctl' : LocalRouteController} {seq : Nat}
    (h : passGuard cfg p seq ctl = some ctl') :
    (cfg.generationGuardEnabled = false ∧ ctl' = ctl) ∨
    (cfg.generationGuardEnabled = true ∧
      (∀ high, ctl.highestSeenSeq[p]? = some high → high < seq) ∧
      ctl' = { ctl with highestSeenSeq := ctl.highestSeenSeq.insert p seq }) := by
  unfold passGuard at h
  cases hon : cfg.generationGuardEnabled with
  | false =>
      simp only [hon, Bool.false_eq_true, if_false, Option.some.injEq] at h
      exact Or.inl ⟨rfl, h.symm⟩
  | true =>
      simp only [hon, if_true] at h
      right
      cases hhigh : ctl.highestSeenSeq[p]? with
      | none =>
          simp only [hhigh, Option.some.injEq] at h
          exact ⟨rfl, by simp, h.symm⟩
      | some high =>
          simp only [hhigh] at h
          split at h
          · cases h
          next hlt =>
            refine ⟨rfl, ?_, (Option.some.inj h).symm⟩
            rintro _ ⟨⟩
            exact Nat.lt_of_not_le hlt

/-- Only the watermark can change in the guard. -/
theorem exists_passGuard_eq {ctl ctl' : LocalRouteController} {seq : Nat}
    (h : passGuard cfg p seq ctl = some ctl') :
    ∃ seen, ctl' = { ctl with highestSeenSeq := seen } := by
  rcases passGuard_eq_some h with ⟨-, rfl⟩ | ⟨-, -, rfl⟩
  · exact ⟨_, rfl⟩
  · exact ⟨_, rfl⟩

/-- The lifetime an update obtains: the supplied one if it is positive, else the
configured one. -/
def grantedLifetime (cfg : LocalConfig) (ttl : Int) : Time :=
  if 0 < wrap64 (ttl * 1000) then wrap64 (ttl * 1000) else cfg.entryLifetime

/-- The update that a call of `applyTraceUpdate` asks for. -/
def candidate (cfg : LocalConfig) (pfx : Name) (nameHashes : Bytes) (prefixLen : Nat)
    (port : Port) (seq : Nat) (ttl : Int) (w : LocalWorld ω) : Admission where
  pfx := pfx
  nameHashes := nameHashes
  prefixLen := prefixLen
  port := port
  seq := seq
  lifetime := grantedLifetime cfg ttl
  time := w.clock.now
  origin := (admissions w.log pfx).length

/-- A call of `applyTraceUpdate` that does not throw is refused by one of the two
generation checks, or publishes the update. -/
theorem applyTraceUpdate_cases {nameHashes : Bytes} {prefixLen port seq : Nat} {ttl : Int}
    {r : Bool × LocalWorld ω}
    (h : applyTraceUpdate cfg cbs p nameHashes prefixLen port seq ttl w = .ok r) :
    (passGuard cfg p seq w.ctl = none ∧ r = (false, { w with ctl := rejectTrace w.ctl })) ∨
    (∃ ctl s, passGuard cfg p seq w.ctl = some ctl ∧ w.ctl.seqMap[p]? = some s ∧ seq ≤ s ∧
      r = (false, { w with ctl := rejectTrace ctl })) ∨
    ∃ ctl, passGuard cfg p seq w.ctl = some ctl ∧
      (∀ s, w.ctl.seqMap[p]? = some s → s < seq) ∧
      r = (true, publish cfg cbs (candidate cfg p nameHashes prefixLen port seq ttl w)
        { w with ctl := ctl }) := by
  unfold applyTraceUpdate at h
  split at h
  · cases h
  simp only at h
  split at h
  · cases h
  cases hguard : passGuard cfg p seq w.ctl with
  | none =>
      simp only [hguard] at h
      exact Or.inl ⟨rfl, (Except.ok.inj h).symm⟩
  | some ctl =>
      obtain ⟨seen, hctl⟩ := exists_passGuard_eq hguard
      have hseqMap : ctl.seqMap = w.ctl.seqMap := by rw [hctl]
      simp only [hguard, hseqMap] at h
      right
      cases hseq : w.ctl.seqMap[p]? with
      | none =>
          simp only [hseq, Bool.false_eq_true, if_false] at h
          exact Or.inr ⟨ctl, rfl, by simp, (Except.ok.inj h).symm⟩
      | some s =>
          simp only [hseq, decide_eq_true_eq] at h
          split at h
          next hle => exact Or.inl ⟨ctl, s, rfl, rfl, hle, (Except.ok.inj h).symm⟩
          next hlt =>
            refine Or.inr ⟨ctl, rfl, ?_, (Except.ok.inj h).symm⟩
            rintro _ ⟨⟩
            exact Nat.lt_of_not_le hlt

/-- The watermark is not part of the representation. -/
theorem LocalInv.watermark (h : LocalInv cfg cbs none w) (counters : LocalCounters)
    (seen : Std.TreeMap Name Nat) :
    LocalInv cfg cbs none { w with
      ctl := { w.ctl with counters := counters, highestSeenSeq := seen } } :=
  h.frame h.queue (fun _ he => he) fun _ =>
    ⟨Nat.le_refl _, rfl, rfl, rfl, rfl, rfl, fun _ _ => Iff.rfl, rfl⟩

theorem LocalInv.publish (h : LocalInv cfg cbs none w) (hpassive : Passive cfg cbs)
    (htime : u.time = w.clock.now) : LocalInv cfg cbs none (publish cfg cbs u w) :=
  (h.stage htime).dispatch hpassive u.packetIn

theorem LocalInv.applyTraceUpdate (h : LocalInv cfg cbs none w) (hpassive : Passive cfg cbs)
    {nameHashes : Bytes} {prefixLen port seq : Nat} {ttl : Int} {r : Bool × LocalWorld ω}
    (hr : applyTraceUpdate cfg cbs p nameHashes prefixLen port seq ttl w = .ok r) :
    LocalInv cfg cbs none r.2 := by
  rcases applyTraceUpdate_cases hr with
    ⟨-, rfl⟩ | ⟨ctl, s, hguard, -, -, rfl⟩ | ⟨ctl, hguard, -, rfl⟩
  · exact h.watermark _ _
  · obtain ⟨seen, rfl⟩ := exists_passGuard_eq hguard
    exact h.watermark _ _
  · obtain ⟨seen, rfl⟩ := exists_passGuard_eq hguard
    exact (h.watermark w.ctl.counters seen).publish hpassive rfl

/-! ## Runs -/

/-- One step of a controller in arbitrary surroundings.  Between events the
surroundings may do anything of their own, and time may pass up to the next
event of the controller. -/
inductive LocalStep (cfg : LocalConfig) (cbs : LocalCallbacks ω) :
    LocalWorld ω → LocalWorld ω → Prop
  | trace {w : LocalWorld ω} {pfx : Name} {nameHashes : Bytes} {prefixLen port seq : Nat}
      {ttl : Int} {r : Bool × LocalWorld ω}
      (h : LocalRouteController.applyTraceUpdate cfg cbs pfx nameHashes prefixLen port seq
        ttl w = .ok r) :
      LocalStep cfg cbs w r.2
  | respond (w : LocalWorld ω) (m : ControlMessage) :
      LocalStep cfg cbs w (handleControlResponse cfg cbs m w).2
  | fire {w : LocalWorld ω} {e : Scheduled LocalEvent} (he : IsNext e w.ctl.events) :
      LocalStep cfg cbs w (LocalRouteController.fire cfg cbs e w)
  | findExact (w : LocalWorld ω) (pfx : Name) :
      LocalStep cfg cbs w (LocalRouteController.findExact pfx w).2
  | findLongestPrefix (w : LocalWorld ω) (name : Name) :
      LocalStep cfg cbs w (LocalRouteController.findLongestPrefix name w).2
  | idle {w : LocalWorld ω} (clock : Clock) (hnow : w.clock.now ≤ clock.now)
      (huid : w.clock.uid ≤ clock.uid) (hdue : ∀ e ∈ w.ctl.events, clock.now ≤ e.ts)
      (env : ω) :
      LocalStep cfg cbs w { w with clock := clock, env := env }

/-- A freshly constructed controller. -/
def IsFresh (w : LocalWorld ω) : Prop :=
  w.ctl = {} ∧ w.log = []

/-- The states that runs of a fresh controller reach. -/
def LocalReachable (cfg : LocalConfig) (cbs : LocalCallbacks ω) (w : LocalWorld ω) : Prop :=
  ∃ w₀, IsFresh w₀ ∧ Relation.ReflTransGen (LocalStep cfg cbs) w₀ w

theorem LocalInv.initial (h : IsFresh w) : LocalInv cfg cbs none w := by
  obtain ⟨hctl, hlog⟩ := h
  refine ⟨?_, fun _ _ hbusy => (nomatch hbusy), fun p => Or.inl ?_⟩
  · rw [hctl]
    exact QueueInv.nil _
  · constructor <;> rw [hctl] <;> simp [TemporaryForwardingTable.empty]

theorem LocalInv.step (hpassive : Passive cfg cbs) (h : LocalInv cfg cbs none w)
    (hstep : LocalStep cfg cbs w w') : LocalInv cfg cbs none w' := by
  cases hstep with
  | trace hr => exact h.applyTraceUpdate hpassive hr
  | respond m => exact (reenter_handleControlResponse hpassive m w).inv h
  | fire he => exact h.fire hpassive he
  | findExact p => exact h.findExact p
  | findLongestPrefix name => exact h.findLongestPrefix name
  | idle clock hnow huid hdue env =>
      refine h.frame ⟨h.queue.distinct, fun e he => ?_, hdue⟩ (fun _ he => he) fun q => ?_
      · exact Nat.lt_of_lt_of_le (h.queue.issued e he) huid
      · exact ⟨hnow, rfl, rfl, rfl, rfl, rfl, fun _ _ => Iff.rfl, rfl⟩

theorem LocalReachable.inv (hpassive : Passive cfg cbs) (h : LocalReachable cfg cbs w) :
    LocalInv cfg cbs none w := by
  obtain ⟨w₀, hinit, hrun⟩ := h
  exact invariant_of_steps (LocalInv cfg cbs none) (LocalInv.initial hinit)
    (fun _ _ ha hstep => ha.step hpassive hstep) hrun

/-! ## The representation, map by map -/

/-- The current generation of a prefix: the latest admission, while
`m_seqMap` still holds it. -/
def Current (w : LocalWorld ω) (p : Name) (u : Admission) : Prop :=
  lastAdmission w.log p = some u ∧ w.ctl.seqMap[p]? = some u.seq

/-- `e` is the only live event of its kind for the prefix. -/
def OnlyEvent (kind : Name → Nat → LocalEvent) (w : LocalWorld ω) (p : Name) (seq uid : Nat) :
    Prop :=
  ∃ e ∈ w.ctl.events, e.uid = uid ∧ e.event = kind p seq ∧
    ∀ e' ∈ w.ctl.events, ∀ s, e'.event = kind p s → e' = e

/-- How the five maps, the temporary FIB and the timers fit together. -/
structure Represents (cfg : LocalConfig) (cbs : LocalCallbacks ω) (w : LocalWorld ω) :
    Prop where
  keys : ∀ p, p ∈ w.ctl.seqMap ↔ p ∈ w.ctl.routeExpiries
  /-- Every resident generation is the latest admission, with its deadline. -/
  current : ∀ p, p ∈ w.ctl.seqMap → ∃ u, Current w p u ∧
    w.ctl.routeExpiries[p]? = some u.routeExpiry
  /-- A stored prefix has exactly the next hop of its current generation. -/
  fib : ∀ p entry, w.ctl.temporaryFib.entries[p]? = some entry → ∃ u, Current w p u ∧
    entry.OneHop u.port u.tableDeadline
  /-- A resident prefix leaves the temporary FIB only after its deadline. -/
  pruned : ∀ p u, Current w p u → w.ctl.temporaryFib.entries[p]? = none →
    u.tableDeadline ≤ w.clock.now
  timers : ∀ p, p ∈ w.ctl.lifetimeTimers ↔ ∃ u, Current w p u ∧ 0 < u.lifetime
  timer : ∀ p uid, w.ctl.lifetimeTimers[p]? = some uid → ∃ u, Current w p u ∧
    OnlyEvent .expireEntryBySeq w p u.seq uid
  /-- No lifetime event outlives its map entry. -/
  noOtherTimer : ∀ p s, p ∉ w.ctl.lifetimeTimers → ∀ e ∈ w.ctl.events,
    e.event ≠ .expireEntryBySeq p s
  requests : Retrying cfg cbs →
    ∀ p, p ∈ w.ctl.pendingControllerRequests ↔ p ∈ w.ctl.seqMap
  /-- A pending record carries the request of the current generation, its timer
  is the only live retry event, and its budget is within the limit. -/
  request : Retrying cfg cbs → ∀ p pending,
    w.ctl.pendingControllerRequests[p]? = some pending → ∃ u, Current w p u ∧
      pending.seq = u.seq ∧ pending.msg = u.packetIn ∧
      min 0 cfg.controllerRetryLimit ≤ pending.retriesLeft ∧
      pending.retriesLeft ≤ cfg.controllerRetryLimit ∧
      OnlyEvent .onControllerRetryTimeout w p u.seq pending.timer
  /-- No retry event outlives its record. -/
  noOtherRequest : ∀ p s, p ∉ w.ctl.pendingControllerRequests → ∀ e ∈ w.ctl.events,
    e.event ≠ .onControllerRetryTimeout p s

theorem Resident.current {busy : Option (Name × Nat)} (h : Resident cfg cbs busy w p u) :
    Current w p u :=
  ⟨h.last, h.seq⟩

theorem LocalInv.resident_of_mem {busy : Option (Name × Nat)} (h : LocalInv cfg cbs busy w)
    {s : Nat} (hp : w.ctl.seqMap[p]? = some s) : ∃ u, Resident cfg cbs busy w p u := by
  rcases h.each p with hvacant | hres
  · rw [hvacant.seq] at hp
    cases hp
  · exact hres

theorem LocalInv.resident_of_current {busy : Option (Name × Nat)}
    (h : LocalInv cfg cbs busy w) (hu : Current w p u) : Resident cfg cbs busy w p u := by
  obtain ⟨v, hres⟩ := h.resident_of_mem hu.2
  obtain rfl : v = u := Option.some.inj (hres.last.symm.trans hu.1)
  exact hres

theorem LocalInv.onlyEvent_timer (h : LocalInv cfg cbs none w) {uid : Nat}
    (hp : w.ctl.lifetimeTimers[p]? = some uid) :
    ∃ u, Current w p u ∧ 0 < u.lifetime ∧ OnlyEvent .expireEntryBySeq w p u.seq uid := by
  rcases h.each p with hvacant | ⟨u, hres⟩
  · rw [hvacant.timer] at hp
    cases hp
  obtain rfl : u.pfx = p := hres.pfx
  have htimer := hres.timer
  unfold TimerHolds at htimer
  split at htimer
  next hlease =>
    obtain ⟨uid', huid', hmem, honly⟩ := htimer
    obtain rfl : uid' = uid := Option.some.inj (huid'.symm.trans hp)
    refine ⟨u, hres.current, hlease, _, hmem, rfl, rfl, ?_⟩
    exact fun e he s hs => h.queue.uid_unique he hmem (honly e he s hs)
  next =>
    rw [htimer.1] at hp
    cases hp

theorem LocalInv.onlyEvent_request (h : LocalInv cfg cbs none w) (hretry : Retrying cfg cbs)
    {pending : PendingControllerRequest}
    (hp : w.ctl.pendingControllerRequests[p]? = some pending) :
    ∃ u, Current w p u ∧ pending.seq = u.seq ∧ pending.msg = u.packetIn ∧
      min 0 cfg.controllerRetryLimit ≤ pending.retriesLeft ∧
      pending.retriesLeft ≤ cfg.controllerRetryLimit ∧
      OnlyEvent .onControllerRetryTimeout w p u.seq pending.timer := by
  rcases h.each p with hvacant | ⟨u, hres⟩
  · rw [hvacant.pending] at hp
    cases hp
  obtain rfl : u.pfx = p := hres.pfx
  obtain ⟨pending', hp', hseq, hmsg, hlo, hhi, -, hidle⟩ := hres.pending.1 hretry
  obtain rfl : pending' = pending := Option.some.inj (hp'.symm.trans hp)
  obtain ⟨⟨e, he, huid, hevent⟩, honly⟩ := hidle (by simp)
  refine ⟨u, hres.current, hseq, hmsg, hlo, hhi, e, he, huid, hevent, ?_⟩
  exact fun e' he' s hs => h.queue.uid_unique he' he ((honly e' he' s hs).trans huid.symm)

theorem LocalInv.represents (h : LocalInv cfg cbs none w) : Represents cfg cbs w where
  keys p := by
    rw [Std.TreeMap.mem_iff_isSome_getElem?, Std.TreeMap.mem_iff_isSome_getElem?]
    rcases h.each p with hvacant | ⟨u, hres⟩
    · rw [hvacant.seq, hvacant.expiry]
      rfl
    · rw [hres.seq, hres.expiry]
      rfl
  current p hp := by
    rw [Std.TreeMap.mem_iff_isSome_getElem?, Option.isSome_iff_exists] at hp
    obtain ⟨s, hs⟩ := hp
    obtain ⟨u, hres⟩ := h.resident_of_mem hs
    exact ⟨u, hres.current, hres.expiry⟩
  fib p entry hp := by
    rcases h.each p with hvacant | ⟨u, hres⟩
    · rw [hvacant.fib] at hp
      cases hp
    · obtain rfl : u.pfx = p := hres.pfx
      have hfib := hres.fib
      simp only [FibHolds, hp] at hfib
      exact ⟨u, hres.current, hfib.2⟩
  pruned p u hu hp := by
    have hres := h.resident_of_current hu
    obtain rfl : u.pfx = p := hres.pfx
    have hfib := hres.fib
    simpa only [FibHolds, hp] using hfib
  timers p := by
    rw [Std.TreeMap.mem_iff_isSome_getElem?, Option.isSome_iff_exists]
    constructor
    · rintro ⟨uid, huid⟩
      obtain ⟨u, hu, hlease, -⟩ := h.onlyEvent_timer huid
      exact ⟨u, hu, hlease⟩
    · rintro ⟨u, hu, hlease⟩
      have hres := h.resident_of_current hu
      obtain rfl : u.pfx = p := hres.pfx
      have htimer := hres.timer
      rw [TimerHolds, if_pos hlease] at htimer
      obtain ⟨uid, huid, -⟩ := htimer
      exact ⟨uid, huid⟩
  timer p uid huid := by
    obtain ⟨u, hu, -, honly⟩ := h.onlyEvent_timer huid
    exact ⟨u, hu, honly⟩
  noOtherTimer p s hp e he hevent := by
    obtain ⟨u, -, -, -, -, huid⟩ := h.resident_of_expire he hevent
    rw [Std.TreeMap.mem_iff_isSome_getElem?, huid] at hp
    exact hp rfl
  requests hretry p := by
    rw [Std.TreeMap.mem_iff_isSome_getElem?, Std.TreeMap.mem_iff_isSome_getElem?]
    rcases h.each p with hvacant | ⟨u, hres⟩
    · rw [hvacant.pending, hvacant.seq]
      rfl
    · obtain rfl : u.pfx = p := hres.pfx
      obtain ⟨pending, hp, -⟩ := hres.pending.1 hretry
      rw [hp, hres.seq]
      rfl
  request hretry p pending hp := h.onlyEvent_request hretry hp
  noOtherRequest p s hp e he hevent := by
    obtain ⟨-, u, -, -, huid⟩ := h.resident_of_retry he hevent
    obtain ⟨pending, hstored, -⟩ := Option.map_eq_some_iff.mp huid
    rw [Std.TreeMap.mem_iff_isSome_getElem?, hstored] at hp
    exact hp rfl

/-- The representation invariant of `LocalRouteController`: in every state that
a run reaches, with callbacks that may complete requests synchronously but do
not admit updates, the maps, the temporary FIB and the live timers agree. -/
theorem represents_of_reachable (hpassive : Passive cfg cbs)
    (h : LocalReachable cfg cbs w) : Represents cfg cbs w :=
  (h.inv hpassive).represents

/-! ## A run -/

/-- A controller with a lossy request channel, retries and the guard. -/
def sampleConfig : LocalConfig where
  entryLifetime := 0
  controllerRetryTimeout := 5
  controllerRetryLimit := 3
  generationGuardEnabled := true

def lossyCallbacks : LocalCallbacks Unit where
  request := some fun _ w => w
  complete := none

def freshWorld : LocalWorld Unit where
  clock := ⟨0, 0⟩
  ctl := {}
  log := []
  env := ()

theorem passive_lossyCallbacks : Passive sampleConfig lossyCallbacks where
  request := by
    rintro f ⟨⟩ m w
    exact Reenter.refl w
  complete := by
    rintro f ⟨⟩

/-- The state after one leased update of the empty prefix. -/
def updatedWorld : LocalWorld Unit :=
  publish sampleConfig lossyCallbacks
    (candidate sampleConfig [] [] 0 7 1 2 freshWorld)
    { freshWorld with ctl := { highestSeenSeq := (∅ : Std.TreeMap Name Nat).insert [] 1 } }

theorem reachable_updatedWorld : LocalReachable sampleConfig lossyCallbacks updatedWorld := by
  have hupdate : applyTraceUpdate sampleConfig lossyCallbacks [] [] 0 7 1 2 freshWorld =
      .ok (true, updatedWorld) := rfl
  exact ⟨freshWorld, ⟨rfl, rfl⟩, Relation.ReflTransGen.single (LocalStep.trace hupdate)⟩

theorem represents_updatedWorld :
    Represents sampleConfig lossyCallbacks updatedWorld ∧
      updatedWorld.ctl.seqMap[([] : Name)]? = some 1 :=
  ⟨represents_of_reachable passive_lossyCallbacks reachable_updatedWorld, by decide⟩

end LocalRouteController

end Statim
