import Statim.Control.LocalRuns

/-!
# Routes without leases

Where no update carries a lifetime and requests are not retried, the local controller
schedules nothing: a prefix is resident from its admission until a response retires it, and
the temporary FIB answers for exactly the resident prefixes.
-/

namespace Statim

open Support

namespace LocalRouteController

variable {ω : Type} {cfg : LocalConfig} {cbs : LocalCallbacks ω} {w w' : LocalWorld ω}
  {p : Name} {u : Admission}

/-- A controller that runs without leases and without retries. -/
structure Plain (cfg : LocalConfig) : Prop where
  lifetime : cfg.entryLifetime = 0
  retry : cfg.controllerRetryTimeout = 0
  guard : cfg.generationGuardEnabled = false

/-- No update so far carried a lifetime. -/
structure LeaseFree (cfg : LocalConfig) (cbs : LocalCallbacks ω) (w : LocalWorld ω) : Prop where
  inv : LocalInv cfg cbs none w
  leases : ∀ u, .admitted u ∈ w.log → u.lifetime = 0

theorem Plain.not_retrying (h : Plain cfg) : ¬Retrying cfg cbs := by
  rintro ⟨-, htimeout⟩
  rw [h.retry] at htimeout
  exact absurd htimeout (by decide)

/-- A resident prefix has a lease-free admission. -/
theorem LeaseFree.resident (h : LeaseFree cfg cbs w) {s : Nat}
    (hp : w.ctl.seqMap[p]? = some s) :
    ∃ u, Resident cfg cbs none w p u ∧ u.lifetime = 0 := by
  obtain ⟨u, hres⟩ := h.inv.resident_of_mem hp
  exact ⟨u, hres, h.leases u (mem_of_lastAdmission hres.last).1⟩

theorem LeaseFree.vacant (h : LeaseFree cfg cbs w) (hp : w.ctl.seqMap[p]? = none) :
    Vacant w p := by
  rcases h.inv.each p with hvacant | ⟨u, hres⟩
  · exact hvacant
  · rw [hres.seq] at hp
    cases hp

/-- Nothing is scheduled. -/
theorem LeaseFree.events_eq_nil (h : LeaseFree cfg cbs w) (hplain : Plain cfg) :
    w.ctl.events = [] := by
  refine List.eq_nil_iff_forall_not_mem.mpr fun e he => ?_
  cases hseq : w.ctl.seqMap[e.event.pfx]? with
  | none => exact (h.vacant hseq).events e he rfl
  | some s =>
      obtain ⟨u, hres, hlease⟩ := h.resident hseq
      have hpfx : u.pfx = e.event.pfx := hres.pfx
      have htimer := hres.timer
      rw [TimerHolds, if_neg (by rw [hlease]; decide)] at htimer
      cases hevent : e.event with
      | expireEntryBySeq q s =>
          rw [hevent] at hpfx
          refine htimer.2 e he s ?_
          rw [hevent, hpfx]
          rfl
      | onControllerRetryTimeout q s =>
          rw [hevent] at hpfx
          refine (hres.pending.2 hplain.not_retrying).2 e he s ?_
          rw [hevent, hpfx]
          rfl

/-! ## Lookups -/

/-- The table keeps a lease-free hop for as long as time points last. -/
theorem LeaseFree.live (h : LeaseFree cfg cbs w) (hnow : (w.clock.now : Int) < timePointMax)
    {s : Nat} (hp : w.ctl.seqMap[p]? = some s) :
    ∃ entry, (w.ctl.temporaryFib.entries[p]?).bind
      (TemporaryForwardingTable.live? w.clock.now) = some entry := by
  obtain ⟨u, hres, hlease⟩ := h.resident hp
  obtain rfl : u.pfx = p := hres.pfx
  have hdeadline : u.tableDeadline = timePointMax := by
    rw [Admission.tableDeadline, hlease]
    rfl
  have hfib := hres.fib
  unfold FibHolds at hfib
  cases hstored : w.ctl.temporaryFib.entries[u.pfx]? with
  | none =>
      simp only [hstored, hdeadline] at hfib
      exact absurd hnow (Int.not_lt.mpr hfib)
  | some entry =>
      simp only [hstored, hdeadline] at hfib
      obtain ⟨entry', hlive, -⟩ := hfib.2.live?_of_lt hnow
      exact ⟨entry', hlive⟩

theorem LeaseFree.findExact_isSome (h : LeaseFree cfg cbs w)
    (hnow : (w.clock.now : Int) < timePointMax) {s : Nat} (hp : w.ctl.seqMap[p]? = some s) :
    (findExact p w).1.isSome = true := by
  obtain ⟨entry, hlive⟩ := h.live hnow hp
  simp only [LocalRouteController.findExact, TemporaryForwardingTable.findExact]
  rw [TemporaryForwardingTable.pruneAndFind_fst, hlive]
  rfl

theorem LeaseFree.findExact_isNone (h : LeaseFree cfg cbs w)
    (hp : w.ctl.seqMap[p]? = none) : (findExact p w).1.isNone = true := by
  simp only [LocalRouteController.findExact, TemporaryForwardingTable.findExact]
  rw [TemporaryForwardingTable.pruneAndFind_fst, (h.vacant hp).fib]
  rfl

/-- A resident prefix is found from below. -/
theorem LeaseFree.findLongestPrefix_isSome (h : LeaseFree cfg cbs w)
    (hnow : (w.clock.now : Int) < timePointMax) {s : Nat} (hp : w.ctl.seqMap[p]? = some s)
    (c : Component) : (findLongestPrefix (p ++ [c]) w).1.isSome = true := by
  obtain ⟨entry, hlive⟩ := h.live hnow hp
  simp only [LocalRouteController.findLongestPrefix]
  rw [TemporaryForwardingTable.findLongestPrefix_fst, List.length_append, List.length_singleton,
    TemporaryForwardingTable.longestLive, Option.isSome_or, Bool.or_eq_true]
  refine Or.inr ?_
  cases hlength : p.length with
  | zero =>
      obtain rfl := List.length_eq_zero_iff.mp hlength
      rw [TemporaryForwardingTable.longestLive, List.take_zero, hlive]
      rfl
  | succ count =>
      rw [TemporaryForwardingTable.longestLive, ← hlength, List.take_left, hlive]
      rfl

theorem LeaseFree.findExact (h : LeaseFree cfg cbs w) (q : Name) :
    LeaseFree cfg cbs (findExact q w).2 :=
  ⟨h.inv.findExact q, h.leases⟩

theorem LeaseFree.findLongestPrefix (h : LeaseFree cfg cbs w) (name : Name) :
    LeaseFree cfg cbs (findLongestPrefix name w).2 :=
  ⟨h.inv.findLongestPrefix name, h.leases⟩

/-! ## Framing -/

/-- Time may pass freely, and events are issued elsewhere. -/
theorem LeaseFree.elapse (h : LeaseFree cfg cbs w) (hplain : Plain cfg) (hctl : w'.ctl = w.ctl)
    (hlog : w'.log = w.log) (hnow : w.clock.now ≤ w'.clock.now) : LeaseFree cfg cbs w' where
  inv := by
    have hevents : w'.ctl.events = [] := by rw [hctl, h.events_eq_nil hplain]
    refine h.inv.frame ?_ (fun e he => ?_) fun q =>
      ⟨hnow, by rw [hctl], by rw [hctl], by rw [hctl], by rw [hctl], by rw [hctl],
        fun _ _ => by rw [hctl], by rw [hlog]⟩
    · rw [hevents]
      exact QueueInv.nil _
    · rw [hevents] at he
      exact absurd he List.not_mem_nil
  leases := hlog ▸ h.leases

/-! ## Admission and completion -/

/-- A new prefix is admitted. -/
structure Admits (u : Admission) (w w' : LocalWorld ω) : Prop where
  clock : w'.clock = w.clock
  env : w'.env = w.env
  seqMap : w'.ctl.seqMap = w.ctl.seqMap.insert u.pfx u.seq
  counters : w'.ctl.counters =
    { w.ctl.counters with
      tempUpdates := w.ctl.counters.tempUpdates + 1
      controlPackets := w.ctl.counters.controlPackets + 1 }
  log : w'.log = w.log ++ [.admitted u] ++ [.request w.clock.now u.packetIn]

theorem stage_of_plain (hplain : Plain cfg) (hrequest : cbs.request.isSome = true)
    (hlease : u.lifetime = 0) (w : LocalWorld ω) :
    stage cfg cbs u w =
      { w with
        ctl := { replaceEntry w.clock.now u w.ctl with
          events := cancel? w.ctl.lifetimeTimers[u.pfx]? w.ctl.events
          lifetimeTimers := w.ctl.lifetimeTimers.erase u.pfx
          counters := { w.ctl.counters with
            tempUpdates := w.ctl.counters.tempUpdates + 1
            controlPackets := w.ctl.counters.controlPackets + 1 } }
        log := w.log ++ [.admitted u] } := by
  simp [stage, hrequest, restartLifetimeTimer, hlease, replacePending, hplain.retry,
    replaceEntry]

/-- A prefix that is not resident is admitted, and its request goes to the callback. -/
theorem LeaseFree.applyTraceUpdate (h : LeaseFree cfg cbs w) (hplain : Plain cfg)
    {request : ControlMessage → LocalWorld ω → LocalWorld ω}
    (hrequest : cbs.request = some request) (hp : w.ctl.seqMap[p]? = none)
    (nameHashes : Bytes) (prefixLen : Nat) (port : Port) (seq : Nat) :
    ∃ w', Admits (candidate cfg p nameHashes prefixLen port seq 0 w) w w' ∧
      LeaseFree cfg cbs w' ∧
      applyTraceUpdate cfg cbs p nameHashes prefixLen port seq 0 w =
        .ok (true, request
          (candidate cfg p nameHashes prefixLen port seq 0 w).packetIn w') := by
  have hgranted : grantedLifetime cfg 0 = 0 := by
    rw [grantedLifetime, hplain.lifetime]
    rfl
  obtain ⟨u, hu⟩ : ∃ u, u = candidate cfg p nameHashes prefixLen port seq 0 w := ⟨_, rfl⟩
  have hpfx : u.pfx = p := by rw [hu]; rfl
  have hlease : u.lifetime = 0 := by
    rw [hu]
    exact hgranted
  have hsome : cbs.request.isSome = true := by rw [hrequest]; rfl
  have hstage := stage_of_plain hplain hsome hlease w
  have hok : LocalRouteController.applyTraceUpdate cfg cbs p nameHashes prefixLen port seq 0 w =
      .ok (true, publish cfg cbs u w) := by
    have hwrap : wrap64 0 = 0 := rfl
    rw [hu]
    simp [LocalRouteController.applyTraceUpdate, hwrap, hplain.guard, passGuard, hp, candidate,
      hgranted, hplain.lifetime]
  refine ⟨{ stage cfg cbs u w with
    log := (stage cfg cbs u w).log ++ [.request w.clock.now u.packetIn] }, ?_, ?_, ?_⟩
  · rw [← hu, hstage]
    exact ⟨rfl, rfl, rfl, rfl, rfl⟩
  · refine ⟨?_, ?_⟩
    · refine (h.inv.stage (u := u) (by rw [hu]; rfl)).frame ?_ (fun _ he => he) fun q => ?_
      · exact (h.inv.stage (u := u) (by rw [hu]; rfl)).queue
      · exact ⟨Nat.le_refl _, rfl, rfl, rfl, rfl, rfl, fun _ _ => Iff.rfl,
          lastAdmission_request _ _ _ _⟩
    · intro v hv
      rw [(stages_stage cfg cbs u w).log, List.mem_append, List.mem_append,
        List.mem_singleton, List.mem_singleton] at hv
      rcases hv with (hv | hv) | hv
      · exact h.leases v hv
      · rw [LocalObs.admitted.injEq] at hv
        rw [hv, hlease]
      · cases hv
  · rw [hok, publish, dispatch, hrequest, ← hu]
    rw [(stages_stage cfg cbs u w).now]

/-- A resident prefix is retired. -/
structure Retires (p : Name) (w w' : LocalWorld ω) : Prop where
  clock : w'.clock = w.clock
  env : w'.env = w.env
  seqMap : w'.ctl.seqMap = w.ctl.seqMap.erase p
  counters : w'.ctl.counters =
    { w.ctl.counters with syncCompletions := w.ctl.counters.syncCompletions + 1 }
  admissions : ∀ q, admissions w'.log q = admissions w.log q

/-- The response to the resident generation is accepted, and the completion callback runs. -/
theorem LeaseFree.handleControlResponse (h : LeaseFree cfg cbs w) (hplain : Plain cfg)
    {cbs' : LocalCallbacks ω} {completed : Name → LocalWorld ω → LocalWorld ω}
    (hcomplete : cbs'.complete = some completed) {m : ControlMessage} (htype : m.type = .syncAck)
    (hexpiry : m.routeExpiry = 0) (hp : w.ctl.seqMap[m.pfx]? = some m.seq) :
    ∃ w', Retires m.pfx w w' ∧ LeaseFree cfg cbs w' ∧
      handleControlResponse cfg cbs' m w = (true, completed m.pfx w') := by
  obtain ⟨u, hres, hlease⟩ := h.resident hp
  have hstored : w.ctl.routeExpiries[m.pfx]? = some 0 := by
    rw [hres.expiry, Admission.routeExpiry, hlease]
    rfl
  have haccept : acceptResponse cfg m w = (true, { w with
      log := w.log ++ [.completed w.clock.now m m.seq 0 (storedPorts w.ctl m.pfx)]
      ctl := { retire m.pfx w.ctl with
        counters.syncCompletions := w.ctl.counters.syncCompletions + 1 } }) := by
    simp [acceptResponse, htype, hp, hplain.guard, hstored, hexpiry]
  have hinv := h.inv.acceptResponse m
  rw [haccept] at hinv
  refine ⟨_, ?_, ⟨hinv, ?_⟩, ?_⟩
  · exact ⟨rfl, rfl, rfl, rfl, fun q => by simp [Statim.admissions]⟩
  · intro v hv
    rcases List.mem_append.mp hv with hv | hv
    · exact h.leases v hv
    · rw [List.mem_singleton] at hv
      cases hv
  · rw [LocalRouteController.handleControlResponse, haccept, hcomplete]

end LocalRouteController

end Statim
