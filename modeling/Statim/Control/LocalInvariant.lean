import Statim.Control.LocalRouteController

/-!
# Representation invariant of the local route controller

Five maps and two kinds of timers describe the same thing from different
sides: which generation of a prefix is resident.  A prefix is either vacant,
so that nothing at all is stored or scheduled for it, or resident, and then
every map and every live timer names its latest admission.  This module proves
that each handler keeps that invariant, also when the request callback
completes the transaction synchronously.
-/

namespace Statim

open Support

/-! ## Histories -/

theorem admissions_append (log log' : List LocalObs) (p : Name) :
    admissions (log ++ log') p = admissions log p ++ admissions log' p := by
  simp [admissions]

@[simp] theorem lastAdmission_admitted (log : List LocalObs) (u : Admission) (p : Name) :
    lastAdmission (log ++ [.admitted u]) p =
      if u.pfx = p then some u else lastAdmission log p := by
  by_cases h : u.pfx = p
  · simp [lastAdmission, admissions, h]
  · simp [lastAdmission, admissions, h]

@[simp] theorem lastAdmission_request (log : List LocalObs) (t : Nat)
    (m : ControlMessage) (p : Name) :
    lastAdmission (log ++ [.request t m]) p = lastAdmission log p := by
  simp [lastAdmission, admissions]

@[simp] theorem lastAdmission_completed (log : List LocalObs) (t : Nat)
    (m : ControlMessage) (s : Nat) (d : Time) (ports : List Port) (p : Name) :
    lastAdmission (log ++ [.completed t m s d ports]) p = lastAdmission log p := by
  simp [lastAdmission, admissions]

@[simp] theorem lastAdmission_withdrawn (log : List LocalObs) (t : Nat) (q : Name)
    (s : Nat) (p : Name) :
    lastAdmission (log ++ [.withdrawn t q s]) p = lastAdmission log p := by
  simp [lastAdmission, admissions]

theorem mem_admissions {log : List LocalObs} {p : Name} {u : Admission} :
    u ∈ admissions log p ↔ .admitted u ∈ log ∧ u.pfx = p := by
  simp only [admissions, List.mem_filterMap]
  constructor
  · rintro ⟨o, ho, heq⟩
    cases o with
    | admitted v =>
        simp only [Option.ite_none_right_eq_some, Option.some.injEq] at heq
        obtain ⟨hp, rfl⟩ := heq
        exact ⟨ho, hp⟩
    | request t m => cases heq
    | completed t m s d ports => cases heq
    | withdrawn t q s => cases heq
  · rintro ⟨hmem, hp⟩
    exact ⟨_, hmem, by simp [hp]⟩

theorem mem_of_lastAdmission {log : List LocalObs} {p : Name} {u : Admission}
    (h : lastAdmission log p = some u) : .admitted u ∈ log ∧ u.pfx = p :=
  mem_admissions.mp (List.mem_of_getLast? h)

namespace LocalRouteController

variable {ω : Type}

/-! ## The invariant -/

/-- Control requests are dispatched and retried. -/
def Retrying (cfg : LocalConfig) (cbs : LocalCallbacks ω) : Prop :=
  cbs.request.isSome = true ∧ 0 < cfg.controllerRetryTimeout

/-- Nothing is stored or scheduled for the prefix. -/
structure Vacant (w : LocalWorld ω) (p : Name) : Prop where
  seq : w.ctl.seqMap[p]? = none
  expiry : w.ctl.routeExpiries[p]? = none
  fib : w.ctl.temporaryFib.entries[p]? = none
  timer : w.ctl.lifetimeTimers[p]? = none
  pending : w.ctl.pendingControllerRequests[p]? = none
  events : ∀ e ∈ w.ctl.events, e.event.pfx ≠ p

/-- The temporary FIB holds the one hop of `u`, or has pruned it after the
deadline. -/
def FibHolds (w : LocalWorld ω) (u : Admission) : Prop :=
  match w.ctl.temporaryFib.entries[u.pfx]? with
  | none => u.tableDeadline ≤ w.clock.now
  | some entry => entry.pfx = u.pfx ∧ entry.OneHop u.port u.tableDeadline

/-- A finite lease has exactly one live lifetime event, and it names `u`. -/
def TimerHolds (w : LocalWorld ω) (u : Admission) : Prop :=
  if 0 < u.lifetime then
    ∃ uid, w.ctl.lifetimeTimers[u.pfx]? = some uid ∧
      ⟨u.time + u.lifetime.toNat, uid, .expireEntryBySeq u.pfx u.seq⟩ ∈ w.ctl.events ∧
      ∀ e ∈ w.ctl.events, ∀ s, e.event = .expireEntryBySeq u.pfx s → e.uid = uid
  else
    w.ctl.lifetimeTimers[u.pfx]? = none ∧
      ∀ e ∈ w.ctl.events, ∀ s, e.event ≠ .expireEntryBySeq u.pfx s

/-- The pending record carries the request of `u`, and its timer is the only
live retry event.  While the retry handler of the prefix itself runs, the
record still names the event `fired` that started the handler. -/
def PendingHolds (cfg : LocalConfig) (cbs : LocalCallbacks ω) (busy : Option (Name × Nat))
    (w : LocalWorld ω) (u : Admission) : Prop :=
  (Retrying cfg cbs →
    ∃ pending, w.ctl.pendingControllerRequests[u.pfx]? = some pending ∧
      pending.seq = u.seq ∧ pending.msg = u.packetIn ∧
      min 0 cfg.controllerRetryLimit ≤ pending.retriesLeft ∧
      pending.retriesLeft ≤ cfg.controllerRetryLimit ∧
      (∀ fired, busy = some (u.pfx, fired) → pending.timer = fired ∧
        ∀ e ∈ w.ctl.events, ∀ s, e.event ≠ .onControllerRetryTimeout u.pfx s) ∧
      ((∀ fired, busy ≠ some (u.pfx, fired)) →
        (∃ e ∈ w.ctl.events, e.uid = pending.timer ∧
          e.event = .onControllerRetryTimeout u.pfx u.seq) ∧
        ∀ e ∈ w.ctl.events, ∀ s, e.event = .onControllerRetryTimeout u.pfx s →
          e.uid = pending.timer)) ∧
  (¬Retrying cfg cbs →
    w.ctl.pendingControllerRequests[u.pfx]? = none ∧
      ∀ e ∈ w.ctl.events, ∀ s, e.event ≠ .onControllerRetryTimeout u.pfx s)

/-- The latest admission of the prefix is resident. -/
structure Resident (cfg : LocalConfig) (cbs : LocalCallbacks ω)
    (busy : Option (Name × Nat)) (w : LocalWorld ω) (p : Name) (u : Admission) : Prop where
  last : lastAdmission w.log p = some u
  seq : w.ctl.seqMap[p]? = some u.seq
  expiry : w.ctl.routeExpiries[p]? = some u.routeExpiry
  fib : FibHolds w u
  timer : TimerHolds w u
  pending : PendingHolds cfg cbs busy w u

/-- The representation invariant.  `busy` names the prefix whose retry handler
is running and the event that started it; between events it is `none`. -/
structure LocalInv (cfg : LocalConfig) (cbs : LocalCallbacks ω)
    (busy : Option (Name × Nat)) (w : LocalWorld ω) : Prop where
  queue : QueueInv w.clock w.ctl.events
  fired : ∀ p uid, busy = some (p, uid) → ∀ e ∈ w.ctl.events, e.uid ≠ uid
  each : ∀ p, Vacant w p ∨ ∃ u, Resident cfg cbs busy w p u

theorem Resident.pfx {cfg : LocalConfig} {cbs : LocalCallbacks ω}
    {busy : Option (Name × Nat)} {w : LocalWorld ω} {p : Name} {u : Admission}
    (h : Resident cfg cbs busy w p u) : u.pfx = p :=
  (mem_of_lastAdmission h.last).2

/-! ## Framing -/

/-- Two worlds look the same at prefix `q`; time may have passed. -/
structure AgreesAt (q : Name) (w w' : LocalWorld ω) : Prop where
  now : w.clock.now ≤ w'.clock.now
  seq : w'.ctl.seqMap[q]? = w.ctl.seqMap[q]?
  expiry : w'.ctl.routeExpiries[q]? = w.ctl.routeExpiries[q]?
  fib : w'.ctl.temporaryFib.entries[q]? = w.ctl.temporaryFib.entries[q]?
  timer : w'.ctl.lifetimeTimers[q]? = w.ctl.lifetimeTimers[q]?
  pending : w'.ctl.pendingControllerRequests[q]? = w.ctl.pendingControllerRequests[q]?
  events : ∀ e : Scheduled LocalEvent, e.event.pfx = q →
    (e ∈ w'.ctl.events ↔ e ∈ w.ctl.events)
  last : lastAdmission w'.log q = lastAdmission w.log q

theorem Vacant.frame {q : Name} {w w' : LocalWorld ω} (h : Vacant w q)
    (ha : AgreesAt q w w') : Vacant w' q where
  seq := ha.seq.trans h.seq
  expiry := ha.expiry.trans h.expiry
  fib := ha.fib.trans h.fib
  timer := ha.timer.trans h.timer
  pending := ha.pending.trans h.pending
  events e he hq := h.events e ((ha.events e hq).mp he) hq

theorem FibHolds.mono {w w' : LocalWorld ω} {u : Admission} (h : FibHolds w u)
    (hnow : w.clock.now ≤ w'.clock.now)
    (hfib : w'.ctl.temporaryFib.entries[u.pfx]? = w.ctl.temporaryFib.entries[u.pfx]?) :
    FibHolds w' u := by
  unfold FibHolds at h ⊢
  rw [hfib]
  cases hstored : w.ctl.temporaryFib.entries[u.pfx]? with
  | none =>
      simp only [hstored] at h
      exact Int.le_trans h (Int.ofNat_le.mpr hnow)
  | some entry => simpa only [hstored] using h

theorem TimerHolds.congr {w w' : LocalWorld ω} {u : Admission} (h : TimerHolds w u)
    (htimer : w'.ctl.lifetimeTimers[u.pfx]? = w.ctl.lifetimeTimers[u.pfx]?)
    (hevents : ∀ (e : Scheduled LocalEvent) s, e.event = .expireEntryBySeq u.pfx s →
      (e ∈ w'.ctl.events ↔ e ∈ w.ctl.events)) : TimerHolds w' u := by
  unfold TimerHolds at h ⊢
  rw [htimer]
  split at h
  next hlease =>
    rw [if_pos hlease]
    obtain ⟨uid, huid, hmem, honly⟩ := h
    refine ⟨uid, huid, (hevents _ _ rfl).mpr hmem, ?_⟩
    intro e he s hs
    exact honly e ((hevents e s hs).mp he) s hs
  next hlease =>
    rw [if_neg hlease]
    refine ⟨h.1, ?_⟩
    intro e he s hs
    exact h.2 e ((hevents e s hs).mp he) s hs

theorem PendingHolds.frame {cfg : LocalConfig} {cbs : LocalCallbacks ω}
    {busy : Option (Name × Nat)} {w w' : LocalWorld ω} {u : Admission}
    (h : PendingHolds cfg cbs busy w u) (ha : AgreesAt u.pfx w w') :
    PendingHolds cfg cbs busy w' u := by
  have hback : ∀ e ∈ w'.ctl.events, ∀ s,
      e.event = .onControllerRetryTimeout u.pfx s → e ∈ w.ctl.events := by
    intro e he s hs
    exact (ha.events e (by rw [hs]; rfl)).mp he
  refine ⟨?_, ?_⟩
  · intro hretry
    obtain ⟨pending, hpending, hseq, hmsg, hlo, hhi, hbusy, hidle⟩ := h.1 hretry
    refine ⟨pending, ha.pending.trans hpending, hseq, hmsg, hlo, hhi, ?_, ?_⟩
    · intro fired hfired
      obtain ⟨htimer, hnone⟩ := hbusy fired hfired
      exact ⟨htimer, fun e he s hs => hnone e (hback e he s hs) s hs⟩
    · intro hnot
      obtain ⟨⟨e, he, huid, hevent⟩, honly⟩ := hidle hnot
      refine ⟨⟨e, (ha.events e (by rw [hevent]; rfl)).mpr he, huid, hevent⟩, ?_⟩
      intro e he s hs
      exact honly e (hback e he s hs) s hs
  · intro hretry
    obtain ⟨hpending, hnone⟩ := h.2 hretry
    exact ⟨ha.pending.trans hpending, fun e he s hs => hnone e (hback e he s hs) s hs⟩

theorem Resident.frame {cfg : LocalConfig} {cbs : LocalCallbacks ω}
    {busy : Option (Name × Nat)} {w w' : LocalWorld ω} {q : Name} {u : Admission}
    (h : Resident cfg cbs busy w q u) (ha : AgreesAt q w w') :
    Resident cfg cbs busy w' q u := by
  have hq : u.pfx = q := h.pfx
  subst hq
  exact ⟨ha.last.trans h.last, ha.seq.trans h.seq, ha.expiry.trans h.expiry,
    h.fib.mono ha.now ha.fib, h.timer.congr ha.timer fun e s hs => ha.events e (by rw [hs]; rfl),
    h.pending.frame ha⟩

/-- A prefix at which two worlds agree stays vacant or resident. -/
theorem each_frame {cfg : LocalConfig} {cbs : LocalCallbacks ω}
    {busy : Option (Name × Nat)} {w w' : LocalWorld ω} {q : Name}
    (h : Vacant w q ∨ ∃ u, Resident cfg cbs busy w q u) (ha : AgreesAt q w w') :
    Vacant w' q ∨ ∃ u, Resident cfg cbs busy w' q u := by
  rcases h with h | ⟨u, h⟩
  · exact Or.inl (h.frame ha)
  · exact Or.inr ⟨u, h.frame ha⟩

variable {cfg : LocalConfig} {cbs : LocalCallbacks ω} {busy : Option (Name × Nat)}
  {w w' : LocalWorld ω} {p q : Name} {u : Admission}

/-- Two worlds that agree everywhere satisfy the invariant together. -/
theorem LocalInv.frame (h : LocalInv cfg cbs busy w)
    (hqueue : QueueInv w'.clock w'.ctl.events)
    (hsub : ∀ e ∈ w'.ctl.events, e ∈ w.ctl.events)
    (ha : ∀ q, AgreesAt q w w') : LocalInv cfg cbs busy w' where
  queue := hqueue
  fired p uid hbusy e he := h.fired p uid hbusy e (hsub e he)
  each q := each_frame (h.each q) (ha q)

/-! ## Who owns an event -/

/-- Only events of `p` answer to the handle. -/
def Owns (p : Name) (events : List (Scheduled LocalEvent)) (handle : Option Nat) : Prop :=
  ∀ uid, handle = some uid → ∀ e ∈ events, e.uid = uid → e.event.pfx = p

theorem LocalInv.owns_lifetime (h : LocalInv cfg cbs busy w) (p : Name) :
    Owns p w.ctl.events w.ctl.lifetimeTimers[p]? := by
  intro uid huid e he heuid
  rcases h.each p with hvacant | ⟨u, hres⟩
  · rw [hvacant.timer] at huid
    cases huid
  · obtain rfl : u.pfx = p := hres.pfx
    have htimer := hres.timer
    unfold TimerHolds at htimer
    split at htimer
    · obtain ⟨uid', huid', hmem, -⟩ := htimer
      obtain rfl : uid' = uid := Option.some.inj (huid'.symm.trans huid)
      rw [h.queue.uid_unique he hmem heuid]
      rfl
    · rw [htimer.1] at huid
      cases huid

theorem LocalInv.owns_pending (h : LocalInv cfg cbs busy w) (p : Name) :
    Owns p w.ctl.events (w.ctl.pendingControllerRequests[p]?.map (·.timer)) := by
  intro uid huid e he heuid
  obtain ⟨pending, hpending, rfl⟩ := Option.map_eq_some_iff.mp huid
  rcases h.each p with hvacant | ⟨u, hres⟩
  · rw [hvacant.pending] at hpending
    cases hpending
  · obtain rfl : u.pfx = p := hres.pfx
    by_cases hretry : Retrying cfg cbs
    · obtain ⟨pending', hpending', -, -, -, -, hbusy, hidle⟩ := hres.pending.1 hretry
      obtain rfl : pending' = pending := Option.some.inj (hpending'.symm.trans hpending)
      by_cases hfree : ∀ fired, busy ≠ some (u.pfx, fired)
      · obtain ⟨⟨e', he', huid', hevent⟩, -⟩ := hidle hfree
        rw [h.queue.uid_unique he he' (heuid.trans huid'.symm), hevent]
        rfl
      · push Not at hfree
        obtain ⟨fired, hfired⟩ := hfree
        exact absurd (heuid.trans (hbusy fired hfired).1) (h.fired _ _ hfired e he)
    · rw [(hres.pending.2 hretry).1] at hpending
      cases hpending

/-- Every live event of a prefix is the one its timer handle or its pending
record names. -/
theorem LocalInv.event_handle (h : LocalInv cfg cbs busy w) {e : Scheduled LocalEvent}
    (he : e ∈ w.ctl.events) :
    w.ctl.lifetimeTimers[e.event.pfx]? = some e.uid ∨
      w.ctl.pendingControllerRequests[e.event.pfx]?.map (·.timer) = some e.uid := by
  rcases h.each e.event.pfx with hvacant | ⟨u, hres⟩
  · exact absurd rfl (hvacant.events e he)
  · have hpfx : u.pfx = e.event.pfx := hres.pfx
    cases hevent : e.event with
    | expireEntryBySeq p s =>
        left
        have hp : u.pfx = p := by rw [hpfx, hevent]; rfl
        have htimer := hres.timer
        unfold TimerHolds at htimer
        split at htimer
        · obtain ⟨uid, huid, -, honly⟩ := htimer
          rw [honly e he s (by rw [hevent, hp])]
          rwa [hp] at huid
        · exact absurd (by rw [hevent, hp]) (htimer.2 e he s)
    | onControllerRetryTimeout p s =>
        right
        have hp : u.pfx = p := by rw [hpfx, hevent]; rfl
        have hname : e.event = .onControllerRetryTimeout u.pfx s := by rw [hevent, hp]
        by_cases hretry : Retrying cfg cbs
        · obtain ⟨pending, hpending, -, -, -, -, hbusy, hidle⟩ := hres.pending.1 hretry
          by_cases hfree : ∀ fired, busy ≠ some (u.pfx, fired)
          · rw [(hidle hfree).2 e he s hname]
            show (w.ctl.pendingControllerRequests[p]?).map _ = _
            rw [← hp, hpending]
            rfl
          · push Not at hfree
            obtain ⟨fired, hfired⟩ := hfree
            exact absurd hname ((hbusy fired hfired).2 e he s)
        · exact absurd hname ((hres.pending.2 hretry).2 e he s)

/-! ## Vacating a prefix -/

/-- `w'` is `w` after everything about `p` has been removed. -/
structure Vacates (p : Name) (w w' : LocalWorld ω) : Prop where
  now : w.clock.now ≤ w'.clock.now
  queue : QueueInv w'.clock w'.ctl.events
  seq : ∀ q, w'.ctl.seqMap[q]? = if p = q then none else w.ctl.seqMap[q]?
  expiry : ∀ q, w'.ctl.routeExpiries[q]? = if p = q then none else w.ctl.routeExpiries[q]?
  fib : ∀ q, w'.ctl.temporaryFib.entries[q]? =
    if p = q then none else w.ctl.temporaryFib.entries[q]?
  timer : ∀ q, w'.ctl.lifetimeTimers[q]? = if p = q then none else w.ctl.lifetimeTimers[q]?
  pending : ∀ q, w'.ctl.pendingControllerRequests[q]? =
    if p = q then none else w.ctl.pendingControllerRequests[q]?
  events : ∀ e : Scheduled LocalEvent,
    e ∈ w'.ctl.events ↔ e ∈ w.ctl.events ∧ e.event.pfx ≠ p
  last : ∀ q, lastAdmission w'.log q = lastAdmission w.log q

theorem Vacates.vacant (h : Vacates p w w') : Vacant w' p where
  seq := (h.seq p).trans (if_pos rfl)
  expiry := (h.expiry p).trans (if_pos rfl)
  fib := (h.fib p).trans (if_pos rfl)
  timer := (h.timer p).trans (if_pos rfl)
  pending := (h.pending p).trans (if_pos rfl)
  events e he := ((h.events e).mp he).2

theorem Vacates.agreesAt (h : Vacates p w w') (hq : p ≠ q) : AgreesAt q w w' where
  now := h.now
  seq := (h.seq q).trans (if_neg hq)
  expiry := (h.expiry q).trans (if_neg hq)
  fib := (h.fib q).trans (if_neg hq)
  timer := (h.timer q).trans (if_neg hq)
  pending := (h.pending q).trans (if_neg hq)
  events e he := (h.events e).trans (and_iff_left (he ▸ Ne.symm hq))
  last := h.last q

theorem LocalInv.vacate (h : LocalInv cfg cbs busy w) (hv : Vacates p w w') :
    LocalInv cfg cbs busy w' where
  queue := hv.queue
  fired r uid hbusy e he := h.fired r uid hbusy e ((hv.events e).mp he).1
  each q := by
    by_cases hq : p = q
    · subst hq
      exact Or.inl hv.vacant
    · exact each_frame (h.each q) (hv.agreesAt hq)

/-- A retry handler that finds its prefix vacant has nothing left to do. -/
theorem LocalInv.idle_of_vacant {fired : Nat} (h : LocalInv cfg cbs (some (p, fired)) w)
    (hv : Vacant w p) : LocalInv cfg cbs none w where
  queue := h.queue
  fired r uid hbusy := by cases hbusy
  each q := by
    rcases h.each q with hvacant | ⟨u, hres⟩
    · exact Or.inl hvacant
    · by_cases hq : q = p
      · subst hq
        exact Or.inl hv
      · refine Or.inr ⟨u, hres.last, hres.seq, hres.expiry, hres.fib, hres.timer, ?_⟩
        have hpfx : u.pfx = q := hres.pfx
        refine ⟨fun hretry => ?_, hres.pending.2⟩
        obtain ⟨pending, hpending, hseq, hmsg, hlo, hhi, -, hidle⟩ := hres.pending.1 hretry
        refine ⟨pending, hpending, hseq, hmsg, hlo, hhi, by simp, fun _ => hidle ?_⟩
        rintro f hbusy
        exact hq (hpfx ▸ (congrArg Prod.fst (Option.some.inj hbusy)).symm)

/-- Cancelling both handles of a prefix removes exactly its events. -/
theorem LocalInv.mem_cancel_handles (h : LocalInv cfg cbs busy w) (p : Name)
    (e : Scheduled LocalEvent) :
    e ∈ cancel? (w.ctl.pendingControllerRequests[p]?.map (·.timer))
        (cancel? w.ctl.lifetimeTimers[p]? w.ctl.events) ↔
      e ∈ w.ctl.events ∧ e.event.pfx ≠ p := by
  rw [Support.mem_cancel?, Support.mem_cancel?]
  constructor
  · rintro ⟨⟨hmem, htimer⟩, hpending⟩
    refine ⟨hmem, ?_⟩
    rintro rfl
    exact (h.event_handle hmem).elim htimer hpending
  · rintro ⟨hmem, hpfx⟩
    refine ⟨⟨hmem, fun hhandle => hpfx ?_⟩, fun hhandle => hpfx ?_⟩
    · exact h.owns_lifetime p e.uid hhandle e hmem rfl
    · exact h.owns_pending p e.uid hhandle e hmem rfl

/-- `retire` vacates its prefix, whatever else the handler counts and logs. -/
theorem LocalInv.retire_vacates (h : LocalInv cfg cbs busy w) (p : Name)
    (counters : LocalCounters) {log : List LocalObs}
    (hlast : ∀ q, lastAdmission log q = lastAdmission w.log q) :
    Vacates p w
      { w with log := log, ctl := { retire p w.ctl with counters := counters } } where
  now := Nat.le_refl _
  queue := (h.queue.cancel? _).cancel? _
  seq q := by simp [retire, Std.TreeMap.getElem?_erase]
  expiry q := by simp [retire, Std.TreeMap.getElem?_erase]
  fib q := TemporaryForwardingTable.getElem?_erase _ _ _
  timer q := by simp [retire, Std.TreeMap.getElem?_erase]
  pending q := by simp [retire, Std.TreeMap.getElem?_erase]
  events := h.mem_cancel_handles p
  last := hlast

/-! ## Responses, lookups and re-entrance -/

/-- A change of counters, history, environment and event identifiers touches no
prefix. -/
theorem LocalInv.bookkeeping (h : LocalInv cfg cbs busy w) (counters : LocalCounters)
    {log : List LocalObs} (hlast : ∀ q, lastAdmission log q = lastAdmission w.log q)
    {uid : Nat} (huid : w.clock.uid ≤ uid) (env : ω) :
    LocalInv cfg cbs busy
      { clock := { w.clock with uid := uid }, ctl := { w.ctl with counters := counters }
        log := log, env := env } :=
  h.frame (h.queue.mono rfl huid) (fun _ he => he) fun q =>
    ⟨Nat.le_refl _, rfl, rfl, rfl, rfl, rfl, fun _ _ => Iff.rfl, hlast q⟩

/-- A response is either counted and refused, or it names the resident
generation and deadline and retires the prefix. -/
theorem acceptResponse_cases (cfg : LocalConfig) (m : ControlMessage) (w : LocalWorld ω) :
    (∃ counters, acceptResponse cfg m w =
      (false, { w with ctl := { w.ctl with counters := counters } })) ∨
    ∃ seq, m.type = .syncAck ∧ w.ctl.seqMap[m.pfx]? = some seq ∧
      (seq = m.seq ∨ (cfg.generationGuardEnabled = false ∧ m.seq = 0)) ∧
      m.routeExpiry = w.ctl.routeExpiries[m.pfx]?.getD 0 ∧
      ¬(0 < m.routeExpiry ∧ m.routeExpiry ≤ w.clock.now) ∧
      acceptResponse cfg m w =
        (true, { w with
          log := w.log ++ [.completed w.clock.now m seq m.routeExpiry
            (storedPorts w.ctl m.pfx)]
          ctl := { retire m.pfx w.ctl with
            counters.syncCompletions := w.ctl.counters.syncCompletions + 1 } }) := by
  by_cases htype : m.type = .syncAck
  swap
  · exact Or.inl ⟨w.ctl.counters, by simp [acceptResponse, htype]⟩
  cases hseq : w.ctl.seqMap[m.pfx]? with
  | none =>
      left
      simp only [acceptResponse, htype, hseq, ne_eq, not_true_eq_false, if_false]
      split <;> split <;> exact ⟨_, rfl⟩
  | some seq =>
      simp only [acceptResponse, htype, hseq, ne_eq, not_true_eq_false, if_false]
      split
      · exact Or.inl ⟨_, rfl⟩
      next hguard =>
        split
        · exact Or.inl ⟨_, rfl⟩
        next hlive =>
          split
          · exact Or.inl ⟨_, rfl⟩
          next hexpiry =>
            rw [not_not] at hexpiry
            refine Or.inr ⟨seq, trivial, rfl, ?_, hexpiry, by rwa [hexpiry], by rw [hexpiry]⟩
            -- the guard either compares generations or lets generation 0 pass
            cases hon : cfg.generationGuardEnabled with
            | false =>
                simp only [hon, Bool.false_and, Bool.not_false, Bool.true_and,
                  Bool.false_or, Bool.and_eq_true, decide_eq_true_eq, not_and,
                  not_not] at hguard
                by_cases hzero : m.seq = 0
                · exact Or.inr ⟨rfl, hzero⟩
                · exact Or.inl (hguard hzero)
            | true =>
                simp only [hon, Bool.true_and, Bool.not_true, Bool.false_and,
                  Bool.or_false, decide_eq_true_eq, not_not] at hguard
                exact Or.inl hguard

theorem LocalInv.acceptResponse (h : LocalInv cfg cbs busy w) (m : ControlMessage) :
    LocalInv cfg cbs busy (acceptResponse cfg m w).2 := by
  rcases acceptResponse_cases cfg m w with ⟨counters, heq⟩ | ⟨seq, -, -, -, -, -, heq⟩
  · rw [heq]
    exact h.bookkeeping counters (fun _ => rfl) (Nat.le_refl _) w.env
  · rw [heq]
    exact h.vacate (h.retire_vacates m.pfx _ (fun q => by simp))

/-- Pruning one prefix of the temporary FIB removes at most an expired hop. -/
theorem FibHolds.prune (h : FibHolds w u) (q : Name) :
    FibHolds { w with ctl := { w.ctl with temporaryFib :=
      (w.ctl.temporaryFib.pruneAndFind w.clock.now q).2 } } u := by
  unfold FibHolds at h ⊢
  rw [show LocalRouteController.temporaryFib _ =
    (w.ctl.temporaryFib.pruneAndFind w.clock.now q).2 from rfl,
    TemporaryForwardingTable.getElem?_pruneAndFind]
  by_cases hq : q = u.pfx
  swap
  · simpa [hq] using h
  cases hstored : w.ctl.temporaryFib.entries[u.pfx]? with
  | none =>
      simp only [hstored] at h
      simpa [hq] using h
  | some entry =>
      simp only [hstored] at h
      obtain ⟨hpfx, hone⟩ := h
      by_cases hexpired : u.tableDeadline ≤ (w.clock.now : Int)
      · simpa [hq, hone.live?_of_expired hexpired] using hexpired
      · obtain ⟨entry', hlive, hpfx', hone'⟩ := hone.live?_of_lt (Int.not_le.mp hexpired)
        simpa [hq, hlive] using ⟨hpfx'.trans hpfx, hone'⟩

theorem LocalInv.prune (h : LocalInv cfg cbs busy w) (q : Name) :
    LocalInv cfg cbs busy { w with ctl := { w.ctl with temporaryFib :=
      (w.ctl.temporaryFib.pruneAndFind w.clock.now q).2 } } where
  queue := h.queue
  fired := h.fired
  each r := by
    rcases h.each r with hvacant | ⟨u, hres⟩
    · refine Or.inl { hvacant with fib := ?_ }
      show (w.ctl.temporaryFib.pruneAndFind w.clock.now q).2.entries[r]? = none
      rw [TemporaryForwardingTable.getElem?_pruneAndFind, hvacant.fib]
      simp
    · exact Or.inr ⟨u, { hres with fib := hres.fib.prune q }⟩

theorem LocalInv.findExact (h : LocalInv cfg cbs busy w) (q : Name) :
    LocalInv cfg cbs busy (findExact q w).2 :=
  h.prune q

theorem LocalInv.findLongestPrefix (h : LocalInv cfg cbs busy w) (name : Name) :
    LocalInv cfg cbs busy (findLongestPrefix name w).2 := by
  have hprune : ∀ q t,
      LocalInv cfg cbs busy { w with ctl := { w.ctl with temporaryFib := t } } →
      LocalInv cfg cbs busy { w with ctl := { w.ctl with
        temporaryFib := (t.pruneAndFind w.clock.now q).2 } } :=
    fun q t ht => ht.prune q
  exact TemporaryForwardingTable.searchFrom_preserves hprune name name.length h

/-- What a callback may do before it returns: deliver responses, look up
routes, issue events of its own and change its environment.  It admits no
update, and no time passes. -/
inductive Reenter (cfg : LocalConfig) : LocalWorld ω → LocalWorld ω → Prop
  | refl (w : LocalWorld ω) : Reenter cfg w w
  | respond {w w' : LocalWorld ω} (m : ControlMessage) :
      Reenter cfg w w' → Reenter cfg w (acceptResponse cfg m w').2
  | exact {w w' : LocalWorld ω} (p : Name) :
      Reenter cfg w w' → Reenter cfg w (LocalRouteController.findExact p w').2
  | longest {w w' : LocalWorld ω} (name : Name) :
      Reenter cfg w w' → Reenter cfg w (LocalRouteController.findLongestPrefix name w').2
  | other {w w' : LocalWorld ω} {uid : Nat} (huid : w'.clock.uid ≤ uid) (env : ω) :
      Reenter cfg w w' →
      Reenter cfg w { w' with clock := { w'.clock with uid := uid }, env := env }

/-- Callbacks that do not themselves admit updates. -/
structure Passive (cfg : LocalConfig) (cbs : LocalCallbacks ω) : Prop where
  request : ∀ f, cbs.request = some f → ∀ m w, Reenter cfg w (f m w)
  complete : ∀ f, cbs.complete = some f → ∀ p w, Reenter cfg w (f p w)

theorem Reenter.inv (hr : Reenter cfg w w') (h : LocalInv cfg cbs busy w) :
    LocalInv cfg cbs busy w' := by
  induction hr with
  | refl => exact h
  | respond m _ ih => exact ih.acceptResponse m
  | exact p _ ih => exact ih.findExact p
  | longest name _ ih => exact ih.findLongestPrefix name
  | other huid env _ ih => exact ih.bookkeeping _ (fun _ => rfl) huid env

theorem admissions_acceptResponse (m : ControlMessage) (p : Name) :
    admissions (acceptResponse cfg m w).2.log p = admissions w.log p := by
  rcases acceptResponse_cases cfg m w with ⟨counters, heq⟩ | ⟨seq, -, -, -, -, -, heq⟩
  · rw [heq]
  · simp [heq, admissions]

theorem highestSeenSeq_acceptResponse (m : ControlMessage) :
    (acceptResponse cfg m w).2.ctl.highestSeenSeq = w.ctl.highestSeenSeq := by
  rcases acceptResponse_cases cfg m w with ⟨counters, heq⟩ | ⟨seq, -, -, -, -, -, heq⟩
  · rw [heq]
  · rw [heq]
    rfl

/-- Callbacks leave the admissions alone. -/
theorem Reenter.admissions (hr : Reenter cfg w w') (p : Name) :
    admissions w'.log p = admissions w.log p := by
  induction hr with
  | refl => rfl
  | respond m _ ih => exact (admissions_acceptResponse m p).trans ih
  | exact _ _ ih => exact ih
  | longest _ _ ih => exact ih
  | other _ _ _ ih => exact ih

theorem Reenter.highestSeenSeq (hr : Reenter cfg w w') :
    w'.ctl.highestSeenSeq = w.ctl.highestSeenSeq := by
  induction hr with
  | refl => rfl
  | respond m _ ih => exact (highestSeenSeq_acceptResponse m).trans ih
  | exact _ _ ih => exact ih
  | longest _ _ ih => exact ih
  | other _ _ _ ih => exact ih

theorem Reenter.lastAdmission (hr : Reenter cfg w w') (p : Name) :
    lastAdmission w'.log p = lastAdmission w.log p :=
  congrArg List.getLast? (hr.admissions p)

theorem LocalInv.dispatch (h : LocalInv cfg cbs busy w) (hpassive : Passive cfg cbs)
    (m : ControlMessage) : LocalInv cfg cbs busy (dispatch cbs m w) := by
  unfold LocalRouteController.dispatch
  cases hrequest : cbs.request with
  | none => exact h
  | some request =>
      refine (hpassive.request request hrequest m _).inv ?_
      exact h.bookkeeping _ (fun q => by simp) (Nat.le_refl _) w.env

theorem admissions_dispatch (hpassive : Passive cfg cbs) (m : ControlMessage) (p : Name) :
    admissions (dispatch cbs m w).log p = admissions w.log p := by
  unfold dispatch
  cases hrequest : cbs.request with
  | none => rfl
  | some request =>
      rw [(hpassive.request request hrequest m _).admissions p]
      simp [admissions]

theorem highestSeenSeq_dispatch (hpassive : Passive cfg cbs) (m : ControlMessage) :
    (dispatch cbs m w).ctl.highestSeenSeq = w.ctl.highestSeenSeq := by
  unfold dispatch
  cases hrequest : cbs.request with
  | none => rfl
  | some request => exact (hpassive.request request hrequest m _).highestSeenSeq

theorem Reenter.trans {w'' : LocalWorld ω} (h : Reenter cfg w w') (h' : Reenter cfg w' w'') :
    Reenter cfg w w'' := by
  induction h' with
  | refl => exact h
  | respond m _ ih => exact ih.respond m
  | exact p _ ih => exact ih.exact p
  | longest name _ ih => exact ih.longest name
  | other huid env _ ih => exact ih.other huid env

/-- `handleControlResponse` is a response followed by the completion callback. -/
theorem reenter_handleControlResponse (hpassive : Passive cfg cbs) (m : ControlMessage)
    (w : LocalWorld ω) : Reenter cfg w (handleControlResponse cfg cbs m w).2 := by
  have hresponse : Reenter cfg w (acceptResponse cfg m w).2 := (Reenter.refl w).respond m
  unfold handleControlResponse
  split
  next w' complete haccept hcomplete =>
    rw [haccept] at hresponse
    exact hresponse.trans (hpassive.complete complete hcomplete _ _)
  next => exact hresponse

/-! ## Timers -/

theorem LocalInv.take_queue (h : LocalInv cfg cbs busy w) {e : Scheduled LocalEvent}
    (he : IsNext e w.ctl.events) : QueueInv (take e w).clock (take e w).ctl.events :=
  (h.queue.cancel e.uid).advance fun _ he' => he.ts_le (mem_cancel.mp he').1

/-- Taking an event off the queue is visible at its own prefix only. -/
theorem LocalInv.take_agreesAt (h : LocalInv cfg cbs busy w) {e : Scheduled LocalEvent}
    (he : IsNext e w.ctl.events) (hq : q ≠ e.event.pfx) : AgreesAt q w (take e w) where
  now := h.queue.due e he.1
  seq := rfl
  expiry := rfl
  fib := rfl
  timer := rfl
  pending := rfl
  events e' he' := by
    show e' ∈ cancel e.uid w.ctl.events ↔ _
    rw [mem_cancel]
    refine and_iff_left_of_imp fun hmem huid => hq ?_
    rw [← he', h.queue.uid_unique hmem he.1 huid]
  last := rfl

/-- Marking another prefix busy does not change what is known of `u`. -/
theorem PendingHolds.rebusy {busy' : Option (Name × Nat)} (h : PendingHolds cfg cbs busy w u)
    (hbusy : ∀ fired, busy ≠ some (u.pfx, fired)) (hbusy' : ∀ fired, busy' ≠ some (u.pfx, fired)) :
    PendingHolds cfg cbs busy' w u := by
  refine ⟨fun hretry => ?_, h.2⟩
  obtain ⟨pending, hpending, hseq, hmsg, hlo, hhi, -, hidle⟩ := h.1 hretry
  exact ⟨pending, hpending, hseq, hmsg, hlo, hhi, fun fired hf => absurd hf (hbusy' fired),
    fun _ => hidle hbusy⟩

theorem Resident.rebusy {busy' : Option (Name × Nat)} (h : Resident cfg cbs busy w q u)
    (hbusy : ∀ fired, busy ≠ some (q, fired)) (hbusy' : ∀ fired, busy' ≠ some (q, fired)) :
    Resident cfg cbs busy' w q u := by
  obtain rfl : u.pfx = q := h.pfx
  exact { h with pending := h.pending.rebusy hbusy hbusy' }

/-- A lifetime event names the resident generation and runs at its deadline. -/
theorem LocalInv.resident_of_expire (h : LocalInv cfg cbs busy w) {e : Scheduled LocalEvent}
    (he : e ∈ w.ctl.events) {s : Nat} (hevent : e.event = .expireEntryBySeq p s) :
    ∃ u, Resident cfg cbs busy w p u ∧ u.seq = s ∧ 0 < u.lifetime ∧
      e.ts = u.time + u.lifetime.toNat ∧ w.ctl.lifetimeTimers[p]? = some e.uid := by
  rcases h.each p with hvacant | ⟨u, hres⟩
  · exact absurd (by rw [hevent]; rfl) (hvacant.events e he)
  · obtain rfl : u.pfx = p := hres.pfx
    have htimer := hres.timer
    unfold TimerHolds at htimer
    split at htimer
    next hlease =>
      obtain ⟨uid, huid, hmem, honly⟩ := htimer
      have heuid : e.uid = uid := honly e he s hevent
      have hsame := h.queue.uid_unique he hmem heuid
      rw [hsame] at hevent
      injection hevent with _ hs
      exact ⟨u, hres, hs, hlease, by rw [hsame], heuid ▸ huid⟩
    next => exact absurd hevent (htimer.2 e he s)

/-- A retry event names the resident generation and is the one its record
names. -/
theorem LocalInv.resident_of_retry (h : LocalInv cfg cbs none w) {e : Scheduled LocalEvent}
    (he : e ∈ w.ctl.events) {s : Nat} (hevent : e.event = .onControllerRetryTimeout p s) :
    Retrying cfg cbs ∧ ∃ u, Resident cfg cbs none w p u ∧ u.seq = s ∧
      w.ctl.pendingControllerRequests[p]?.map (·.timer) = some e.uid := by
  rcases h.each p with hvacant | ⟨u, hres⟩
  · exact absurd (by rw [hevent]; rfl) (hvacant.events e he)
  · obtain rfl : u.pfx = p := hres.pfx
    by_cases hretry : Retrying cfg cbs
    swap
    · exact absurd hevent ((hres.pending.2 hretry).2 e he s)
    obtain ⟨pending, hpending, -, -, -, -, -, hidle⟩ := hres.pending.1 hretry
    obtain ⟨⟨e', he', huid', hevent'⟩, honly⟩ := hidle (by simp)
    have heuid : e.uid = pending.timer := honly e he s hevent
    have hsame := h.queue.uid_unique he he' (heuid.trans huid'.symm)
    rw [hsame, hevent'] at hevent
    injection hevent with _ hs
    exact ⟨hretry, u, hres, hs, by rw [hpending, heuid]; rfl⟩

/-- Taking a retry event off the queue starts its handler. -/
theorem LocalInv.take_retry (h : LocalInv cfg cbs none w) {e : Scheduled LocalEvent}
    (he : IsNext e w.ctl.events) {s : Nat} (hevent : e.event = .onControllerRetryTimeout p s) :
    LocalInv cfg cbs (some (p, e.uid)) (take e w) where
  queue := h.take_queue he
  fired r uid hbusy e' he' := by
    obtain ⟨rfl, rfl⟩ : p = r ∧ e.uid = uid := by simpa using hbusy
    exact (mem_cancel.mp he').2
  each q := by
    have hpfx : e.event.pfx = p := by rw [hevent]; rfl
    by_cases hq : q = p
    swap
    · have hagree : AgreesAt q w (take e w) := h.take_agreesAt he (hpfx ▸ hq)
      rcases h.each q with hvacant | ⟨u, hres⟩
      · exact Or.inl (hvacant.frame hagree)
      · refine Or.inr ⟨u, (hres.frame hagree).rebusy (by simp) ?_⟩
        intro fired hbusy
        exact hq (congrArg Prod.fst (Option.some.inj hbusy)).symm
    subst hq
    obtain ⟨hretry, u, hres, -, htimer⟩ := h.resident_of_retry he.1 hevent
    obtain rfl : u.pfx = q := hres.pfx
    refine Or.inr ⟨u, hres.last, hres.seq, hres.expiry, ?_, ?_, ?_⟩
    · exact hres.fib.mono (h.queue.due e he.1) rfl
    · refine hres.timer.congr rfl fun e' s' hs' => ?_
      -- the event taken is a retry event, not the lifetime event
      refine mem_cancel.trans (and_iff_left_of_imp fun hmem huid => ?_)
      rw [h.queue.uid_unique hmem he.1 huid, hevent] at hs'
      cases hs'
    · refine ⟨fun _ => ?_, fun hnot => absurd hretry hnot⟩
      obtain ⟨pending, hpending, hseq, hmsg, hlo, hhi, -, hidle⟩ := hres.pending.1 hretry
      obtain ⟨-, honly⟩ := hidle (by simp)
      have huid : pending.timer = e.uid := by simpa [hpending] using htimer
      refine ⟨pending, hpending, hseq, hmsg, hlo, hhi, ?_, fun hnot => ?_⟩
      · intro fired hbusy
        obtain rfl : e.uid = fired := by simpa using hbusy
        refine ⟨huid, fun e' he' s' hs' => ?_⟩
        obtain ⟨hmem, hne⟩ := mem_cancel.mp he'
        exact hne ((honly e' hmem s' hs').trans huid)
      · exact absurd rfl (hnot e.uid)

/-- The lifetime timer vacates the prefix of its generation. -/
theorem LocalInv.expire_vacates (h : LocalInv cfg cbs none w) {e : Scheduled LocalEvent}
    (he : IsNext e w.ctl.events) {s : Nat} (hevent : e.event = .expireEntryBySeq p s) :
    Vacates p w
      { take e w with ctl := expireEntryBySeq p s (take e w).ctl } := by
  obtain ⟨u, hres, hseq, -, -, htimer⟩ := h.resident_of_expire he.1 hevent
  have hpfx : u.pfx = p := hres.pfx
  have hseqMap : w.ctl.seqMap[p]? = some s := hseq ▸ hres.seq
  -- the record of the prefix, if there is one, belongs to the same generation
  have hpending : ∀ pending, w.ctl.pendingControllerRequests[p]? = some pending →
      pending.seq = s := by
    intro pending hstored
    subst hpfx
    by_cases hretry : Retrying cfg cbs
    · obtain ⟨pending', hstored', hseq', -⟩ := hres.pending.1 hretry
      rw [hstored] at hstored'
      obtain rfl : pending = pending' := Option.some.inj hstored'
      rw [hseq', hseq]
    · rw [(hres.pending.2 hretry).1] at hstored
      cases hstored
  have hevents := h.mem_cancel_handles p
  rw [htimer] at hevents
  have hnow := h.queue.due e he.1
  have hqueue := h.take_queue he
  cases hstored : w.ctl.pendingControllerRequests[p]? with
  | none =>
      simp only [hstored, Option.map_none] at hevents
      simp only [take, expireEntryBySeq, hseqMap, hstored, if_true]
      exact
        { now := hnow
          queue := hqueue
          seq := fun q => by simp [Std.TreeMap.getElem?_erase]
          expiry := fun q => by simp [Std.TreeMap.getElem?_erase]
          fib := TemporaryForwardingTable.getElem?_erase _ _
          timer := fun q => by simp [Std.TreeMap.getElem?_erase]
          pending := fun q => by
            by_cases hq : p = q
            · subst hq
              simp [hstored]
            · simp [hq]
          events := hevents
          last := fun _ => rfl }
  | some pending =>
      simp only [hstored, Option.map_some] at hevents
      simp only [take, expireEntryBySeq, hseqMap, hstored, if_true, hpending pending hstored]
      exact
        { now := hnow
          queue := hqueue.cancel pending.timer
          seq := fun q => by simp [Std.TreeMap.getElem?_erase]
          expiry := fun q => by simp [Std.TreeMap.getElem?_erase]
          fib := TemporaryForwardingTable.getElem?_erase _ _
          timer := fun q => by simp [Std.TreeMap.getElem?_erase]
          pending := fun q => by simp [Std.TreeMap.getElem?_erase]
          events := hevents
          last := fun _ => rfl }

/-- The running handler takes one retry from the budget. -/
theorem LocalInv.spendRetry {fired : Nat} (h : LocalInv cfg cbs (some (p, fired)) w)
    {pending : PendingControllerRequest}
    (hpending : w.ctl.pendingControllerRequests[p]? = some pending)
    (hleft : 0 < pending.retriesLeft) (counters : LocalCounters) :
    LocalInv cfg cbs (some (p, fired)) { w with ctl := { w.ctl with
      pendingControllerRequests := w.ctl.pendingControllerRequests.insert p
        { pending with retriesLeft := pending.retriesLeft - 1 }
      counters := counters } } where
  queue := h.queue
  fired := h.fired
  each q := by
    by_cases hq : p = q
    swap
    · refine each_frame (h.each q) ⟨Nat.le_refl _, rfl, rfl, rfl, rfl, ?_, fun _ _ => Iff.rfl, rfl⟩
      simp [Std.TreeMap.getElem?_insert, hq]
    subst hq
    rcases h.each p with hvacant | ⟨u, hres⟩
    · rw [hvacant.pending] at hpending
      cases hpending
    refine Or.inr ⟨u, { hres with pending := ?_ }⟩
    obtain rfl : u.pfx = p := hres.pfx
    refine ⟨fun hretry => ?_, fun hretry => ?_⟩
    · obtain ⟨pending', hstored, hseq, hmsg, hlo, hhi, hbusy, hidle⟩ := hres.pending.1 hretry
      obtain rfl : pending' = pending := Option.some.inj (hstored.symm.trans hpending)
      refine ⟨_, Std.TreeMap.getElem?_insert_self, hseq, hmsg, ?_, ?_, hbusy, hidle⟩
      · show min 0 cfg.controllerRetryLimit ≤ pending'.retriesLeft - 1
        omega
      · show pending'.retriesLeft - 1 ≤ cfg.controllerRetryLimit
        omega
    · rw [(hres.pending.2 hretry).1] at hpending
      cases hpending

/-- The next retry timer ends the handler. -/
theorem LocalInv.rescheduleRetry {fired : Nat} (h : LocalInv cfg cbs (some (p, fired)) w)
    (hretry : Retrying cfg cbs) (hlast : lastAdmission w.log p = some u) :
    LocalInv cfg cbs none (rescheduleRetry cfg p u.seq w) := by
  unfold LocalRouteController.rescheduleRetry
  rcases h.each p with hvacant | ⟨v, hres⟩
  · simp only [hvacant.pending]
    exact h.idle_of_vacant hvacant
  obtain rfl : v = u := Option.some.inj (hres.last.symm.trans hlast)
  obtain rfl : v.pfx = p := hres.pfx
  obtain ⟨pending, hstored, hseq, hmsg, hlo, hhi, hbusy, -⟩ := hres.pending.1 hretry
  obtain ⟨-, hnone⟩ := hbusy fired rfl
  simp only [hstored]
  rw [if_pos hseq]
  refine ⟨h.queue.schedule _ _, fun _ _ hidle => (nomatch hidle), fun q => ?_⟩
  by_cases hq : v.pfx = q
  swap
  · have hfree : ∀ f, some (v.pfx, fired) ≠ some (q, f) := by simp [hq]
    have hsame : Vacant w q ∨ ∃ u, Resident cfg cbs none w q u := by
      rcases h.each q with hvacant | ⟨u', hres'⟩
      · exact Or.inl hvacant
      · exact Or.inr ⟨u', hres'.rebusy hfree (by simp)⟩
    refine each_frame hsame ⟨Nat.le_refl _, rfl, rfl, rfl, rfl, ?_, fun e he => ?_, rfl⟩
    · simp [Std.TreeMap.getElem?_insert, hq]
    · refine mem_append_of_event_ne fun hevent => hq ?_
      rw [← he, hevent]
      rfl
  subst hq
  refine Or.inr ⟨v, hres.last, hres.seq, hres.expiry, hres.fib, ?_, ?_⟩
  · refine hres.timer.congr rfl fun e s hs => mem_append_of_event_ne ?_
    rw [hs]
    exact LocalEvent.noConfusion
  · refine ⟨fun _ => ?_, fun hnot => absurd hretry hnot⟩
    refine ⟨_, Std.TreeMap.getElem?_insert_self, hseq, hmsg, hlo, hhi, by simp, fun _ => ?_⟩
    refine ⟨⟨_, List.mem_append_right _ List.mem_cons_self, rfl, rfl⟩, ?_⟩
    intro e he s hs
    rcases List.mem_append.mp he with he | he
    · exact absurd hs (hnone e he s)
    · rw [List.mem_singleton] at he
      rw [he]
      rfl

/-- Withdrawal at the end of the budget vacates the prefix. -/
theorem LocalInv.withdraw_vacates {fired : Nat} (h : LocalInv cfg cbs (some (p, fired)) w)
    (hretry : Retrying cfg cbs) (hres : Resident cfg cbs (some (p, fired)) w p u)
    (counters : LocalCounters) (s : Nat) :
    Vacates p w
      { w with
        log := w.log ++ [.withdrawn w.clock.now p s]
        ctl := { w.ctl with
          counters := counters
          temporaryFib := w.ctl.temporaryFib.erase p
          seqMap := w.ctl.seqMap.erase p
          routeExpiries := w.ctl.routeExpiries.erase p
          events := cancel? w.ctl.lifetimeTimers[p]? w.ctl.events
          lifetimeTimers := w.ctl.lifetimeTimers.erase p
          pendingControllerRequests := w.ctl.pendingControllerRequests.erase p } } where
  now := Nat.le_refl _
  queue := h.queue.cancel? _
  seq q := by simp [Std.TreeMap.getElem?_erase]
  expiry q := by simp [Std.TreeMap.getElem?_erase]
  fib q := TemporaryForwardingTable.getElem?_erase _ _ _
  timer q := by simp [Std.TreeMap.getElem?_erase]
  pending q := by simp [Std.TreeMap.getElem?_erase]
  events e := by
    obtain rfl : u.pfx = p := hres.pfx
    obtain ⟨pending, hstored, -, -, -, -, hbusy, -⟩ := hres.pending.1 hretry
    have hhandles := h.mem_cancel_handles u.pfx e
    rw [hstored, Option.map_some, (hbusy fired rfl).1, Support.mem_cancel?] at hhandles
    -- the retry event that runs the handler is no longer in the queue
    rw [← hhandles]
    refine (and_iff_left_of_imp fun he => ?_).symm
    intro huid
    exact h.fired _ _ rfl e (Support.mem_cancel?.mp he).1 (Option.some.inj huid).symm
  last q := by simp

theorem LocalInv.onControllerRetryTimeout (h : LocalInv cfg cbs none w)
    (hpassive : Passive cfg cbs) {e : Scheduled LocalEvent} (he : IsNext e w.ctl.events) {s : Nat}
    (hevent : e.event = .onControllerRetryTimeout p s) :
    LocalInv cfg cbs none (onControllerRetryTimeout cfg cbs p s (take e w)) := by
  have hbusy := h.take_retry he hevent
  obtain ⟨hretry, u, hres₀, rfl, -⟩ := h.resident_of_retry he.1 hevent
  obtain ⟨v, hres⟩ : ∃ v, Resident cfg cbs (some (p, e.uid)) (take e w) p v := by
    rcases hbusy.each p with hvacant | hres
    · exact absurd (hvacant.seq.symm.trans hres₀.seq) (by simp)
    · exact hres
  obtain rfl : u = v := Option.some.inj (hres₀.last.symm.trans hres.last)
  obtain rfl : u.pfx = p := hres.pfx
  obtain ⟨pending, hstored, hseq, -⟩ := hres.pending.1 hretry
  unfold LocalRouteController.onControllerRetryTimeout
  simp only [hstored]
  rw [if_neg (not_not.mpr hseq), if_neg (not_not.mpr hres.seq)]
  split
  next hleft =>
    have hspent := hbusy.spendRetry hstored hleft { (take e w).ctl.counters with
      controllerRetries := (take e w).ctl.counters.controllerRetries + 1
      controlPackets := (take e w).ctl.counters.controlPackets + 1 }
    refine (hspent.dispatch hpassive pending.msg).rescheduleRetry hretry ?_
    rw [lastAdmission, admissions_dispatch hpassive]
    exact hres.last
  next =>
    have hvacates := hbusy.withdraw_vacates hretry hres
      { (take e w).ctl.counters with temporaryRouteWithdrawals :=
        (take e w).ctl.counters.temporaryRouteWithdrawals + 1 } u.seq
    exact (hbusy.vacate hvacates).idle_of_vacant hvacates.vacant

/-- Every event of the controller keeps the invariant. -/
theorem LocalInv.fire (h : LocalInv cfg cbs none w) (hpassive : Passive cfg cbs)
    {e : Scheduled LocalEvent} (he : IsNext e w.ctl.events) :
    LocalInv cfg cbs none (fire cfg cbs e w) := by
  unfold LocalRouteController.fire
  cases hevent : e.event with
  | expireEntryBySeq p s => exact h.vacate (h.expire_vacates he hevent)
  | onControllerRetryTimeout p s => exact h.onControllerRetryTimeout hpassive he hevent

end LocalRouteController

end Statim
