import Statim.Control.LocalOrder

/-!
# Rejected updates

A refused update or response should leave nothing behind but a count.  The two
generation checks of `applyTraceUpdate` read maps that live for different times, and
the watermark is written between them: once the settings have changed while a route is
resident, a refused update can raise the watermark to a generation that was never
admitted.

The calls that a callback makes are calls of the same run, between the call that runs
the callback and its return.
-/

namespace Statim

open Support

/-- A controller with its settings and callbacks. -/
structure ConfiguredController (ω : Type) where
  cfg : LocalConfig
  cbs : LocalCallbacks ω
  world : LocalWorld ω

/-- The settings of a `LocalRouteController` that a caller may change. -/
inductive Setter (ω : Type)
  | setEntryLifetime (lifetime : Time)
  | setControllerRetryTimeout (t : Time)
  | setControllerRetryLimit (n : Int)
  | setGenerationGuardEnabled (enabled : Bool)
  | setFlowTableSyncRequestCallback (cb : Option (ControlMessage → LocalWorld ω → LocalWorld ω))
  | setSyncCompleteCallback (cb : Option (Name → LocalWorld ω → LocalWorld ω))

def Setter.apply {ω : Type} : Setter ω → ConfiguredController ω →
    Except String (ConfiguredController ω)
  | .setEntryLifetime lifetime, c =>
    if lifetime < 0 then .error "Route lifetime must be nonnegative"
    else .ok { c with cfg.entryLifetime := lifetime }
  | .setControllerRetryTimeout t, c => .ok { c with cfg.controllerRetryTimeout := t }
  | .setControllerRetryLimit n, c => .ok { c with cfg.controllerRetryLimit := n }
  | .setGenerationGuardEnabled enabled, c => .ok { c with cfg.generationGuardEnabled := enabled }
  | .setFlowTableSyncRequestCallback cb, c => .ok { c with cbs.request := cb }
  | .setSyncCompleteCallback cb, c => .ok { c with cbs.complete := cb }

theorem Setter.apply_world {ω : Type} {s : Setter ω} {c c' : ConfiguredController ω}
    (h : s.apply c = .ok c') : c'.world = c.world := by
  cases s with
  | setEntryLifetime lifetime =>
      simp only [Setter.apply] at h
      split at h
      · cases h
      · rw [← Except.ok.inj h]
  | setControllerRetryTimeout t => rw [← Except.ok.inj h]
  | setControllerRetryLimit n => rw [← Except.ok.inj h]
  | setGenerationGuardEnabled enabled => rw [← Except.ok.inj h]
  | setFlowTableSyncRequestCallback cb => rw [← Except.ok.inj h]
  | setSyncCompleteCallback cb => rw [← Except.ok.inj h]

/-- The calls that may be refused. -/
inductive LocalCall
  | applyTraceUpdate (pfx : Name) (nameHashes : Bytes) (prefixLen : Nat) (portNumber : Port)
      (seq : Nat) (ttl : Int)
  | handleControlResponse (message : ControlMessage)

/-- A finished call: what it found, what it answered (`error` is an exception), and what
it left behind. -/
structure CallRecord (ω : Type) where
  before : ConfiguredController ω
  call : LocalCall
  answer : Except String Bool
  after : ConfiguredController ω

namespace LocalRouteController

variable {ω : Type} {cfg : LocalConfig} {cbs : LocalCallbacks ω} {w w' : LocalWorld ω}
  {c c' c₀ : ConfiguredController ω} {records inner : List (CallRecord ω)} {r : CallRecord ω}
  {p : Name} {nameHashes : Bytes} {prefixLen port seq : Nat} {ttl : Int} {m : ControlMessage}

/-! ## Runs with changing settings -/

/-- `onControllerRetryTimeout` up to the request callback: the request that is sent again,
or `none` if the handler sends nothing. -/
def retryRequest (pfx : Name) (seq : Nat) (w : LocalWorld ω) :
    Option (ControlMessage × LocalWorld ω) :=
  match w.ctl.pendingControllerRequests[pfx]? with
  | none => none
  | some pending =>
    if pending.seq = seq ∧ w.ctl.seqMap[pfx]? = some seq ∧ 0 < pending.retriesLeft then
      some (pending.msg, { w with ctl := { w.ctl with
        pendingControllerRequests := w.ctl.pendingControllerRequests.insert pfx
          { pending with retriesLeft := pending.retriesLeft - 1 }
        counters.controllerRetries := w.ctl.counters.controllerRetries + 1
        counters.controlPackets := w.ctl.counters.controlPackets + 1 } })
    else none

/-- A run of a controller from `c₀` to `c`, with the calls that have finished in it.  The
settings may change and time may pass at any point.  Where a callback runs, the premise
`inner` says which calls it makes in the state it finds. -/
inductive Run : List (CallRecord ω) → ConfiguredController ω → ConfiguredController ω → Prop
  | start (c : ConfiguredController ω) : Run [] c c
  | set {records : List (CallRecord ω)} {c₀ c c' : ConfiguredController ω} {s : Setter ω}
      (hset : s.apply c = .ok c') :
      Run records c₀ c → Run records c₀ c'
  /-- `getTemporaryFib` gives the caller a reference to the table. -/
  | getTemporaryFib {records : List (CallRecord ω)} {c₀ c : ConfiguredController ω}
      (table : TemporaryForwardingTable) :
      Run records c₀ c → Run records c₀ { c with world.ctl.temporaryFib := table }
  | other {records : List (CallRecord ω)} {c₀ c : ConfiguredController ω} (clock : Clock)
      (env : ω) :
      Run records c₀ c →
        Run records c₀ { c with world := { c.world with clock := clock, env := env } }
  | throw {records : List (CallRecord ω)} {c₀ c : ConfiguredController ω} {pfx : Name}
      {nameHashes : Bytes} {prefixLen portNumber seq : Nat} {ttl : Int} {what : String}
      (hcall : applyTraceUpdate c.cfg c.cbs pfx nameHashes prefixLen portNumber seq ttl c.world =
        .error what) :
      Run records c₀ c →
        Run (records ++
          [⟨c, .applyTraceUpdate pfx nameHashes prefixLen portNumber seq ttl, .error what, c⟩])
          c₀ c
  | refuse {records : List (CallRecord ω)} {c₀ c : ConfiguredController ω} {pfx : Name}
      {nameHashes : Bytes} {prefixLen portNumber seq : Nat} {ttl : Int} {w : LocalWorld ω}
      (hcall : applyTraceUpdate c.cfg c.cbs pfx nameHashes prefixLen portNumber seq ttl c.world =
        .ok (false, w)) :
      Run records c₀ c →
        Run (records ++
          [⟨c, .applyTraceUpdate pfx nameHashes prefixLen portNumber seq ttl, .ok false,
            { c with world := w }⟩])
          c₀ { c with world := w }
  | admission {records inner : List (CallRecord ω)} {c₀ c c' : ConfiguredController ω} {pfx : Name}
      {nameHashes : Bytes} {prefixLen portNumber seq : Nat} {ttl : Int} {w : LocalWorld ω}
      (hcall : applyTraceUpdate c.cfg c.cbs pfx nameHashes prefixLen portNumber seq ttl c.world =
        .ok (true, c'.world))
      (hcalled : applyTraceUpdate c.cfg (silent c.cbs) pfx nameHashes prefixLen portNumber seq
        ttl c.world = .ok (true, w)) :
      Run inner { c with world := w } c' → Run records c₀ c →
        Run (records ++ inner ++
          [⟨c, .applyTraceUpdate pfx nameHashes prefixLen portNumber seq ttl, .ok true, c'⟩])
          c₀ c'
  | ignore {records : List (CallRecord ω)} {c₀ c : ConfiguredController ω} {m : ControlMessage}
      {w : LocalWorld ω} (hcall : handleControlResponse c.cfg c.cbs m c.world = (false, w)) :
      Run records c₀ c →
        Run (records ++ [⟨c, .handleControlResponse m, .ok false, { c with world := w }⟩])
          c₀ { c with world := w }
  | complete {records inner : List (CallRecord ω)} {c₀ c c' : ConfiguredController ω}
      {m : ControlMessage} {w : LocalWorld ω}
      (hcall : handleControlResponse c.cfg c.cbs m c.world = (true, c'.world))
      (hcalled : acceptResponse c.cfg m c.world = (true, w)) :
      Run inner { c with world := w } c' → Run records c₀ c →
        Run (records ++ inner ++ [⟨c, .handleControlResponse m, .ok true, c'⟩]) c₀ c'
  | expire {records : List (CallRecord ω)} {c₀ c : ConfiguredController ω}
      {e : Scheduled LocalEvent} {pfx : Name} {seq : Nat} (he : e ∈ c.world.ctl.events)
      (hevent : e.event = .expireEntryBySeq pfx seq) :
      Run records c₀ c → Run records c₀ { c with world := fire c.cfg c.cbs e c.world }
  | giveUp {records : List (CallRecord ω)} {c₀ c : ConfiguredController ω}
      {e : Scheduled LocalEvent} {pfx : Name} {seq : Nat} (he : e ∈ c.world.ctl.events)
      (hevent : e.event = .onControllerRetryTimeout pfx seq)
      (hnone : retryRequest pfx seq (take e c.world) = none) :
      Run records c₀ c → Run records c₀ { c with world := fire c.cfg c.cbs e c.world }
  /-- The callback may change the settings, and the next timer reads them after it. -/
  | retry {records inner : List (CallRecord ω)} {c₀ c c' : ConfiguredController ω}
      {e : Scheduled LocalEvent} {pfx : Name} {seq : Nat} {m : ControlMessage} {w : LocalWorld ω}
      (he : e ∈ c.world.ctl.events) (hevent : e.event = .onControllerRetryTimeout pfx seq)
      (hrequest : retryRequest pfx seq (take e c.world) = some (m, w))
      (hworld : c'.world = dispatch c.cbs m w) :
      Run inner { c with world := dispatch (silent c.cbs) m w } c' → Run records c₀ c →
        Run (records ++ inner) c₀ { c' with world := rescheduleRetry c'.cfg pfx seq c'.world }

/-! ## What a refusal leaves behind -/

/-- Counters that differ in rejections only. -/
structure OnlyRejections (counters counters' : LocalCounters) : Prop where
  tempUpdates : counters'.tempUpdates = counters.tempUpdates
  controlPackets : counters'.controlPackets = counters.controlPackets
  syncCompletions : counters'.syncCompletions = counters.syncCompletions
  controllerRetries : counters'.controllerRetries = counters.controllerRetries
  temporaryRouteWithdrawals :
    counters'.temporaryRouteWithdrawals = counters.temporaryRouteWithdrawals

/-- The temporary FIB, the maps, the timers and the pending requests are as they were. -/
def Untouched (w w' : LocalWorld ω) : Prop :=
  ∃ counters, OnlyRejections w.ctl.counters counters ∧
    w' = { w with ctl := { w.ctl with counters := counters } }

/-- The update passes the guard and raises the watermark, but is not newer than the
resident generation. -/
def Leaks (cfg : LocalConfig) (w : LocalWorld ω) : LocalCall → Prop
  | .applyTraceUpdate pfx _ _ _ seq ttl =>
    0 ≤ ttl ∧
    (0 < wrap64 (ttl * 1000) → 0 < cfg.entryLifetime → wrap64 (ttl * 1000) = cfg.entryLifetime) ∧
    cfg.generationGuardEnabled = true ∧
    (∀ high, w.ctl.highestSeenSeq[pfx]? = some high → high < seq) ∧
    ∃ s, w.ctl.seqMap[pfx]? = some s ∧ seq ≤ s
  | .handleControlResponse _ => False

/-- Every recorded watermark is a generation that has been admitted. -/
def WatermarksAdmitted (w : LocalWorld ω) : Prop :=
  ∀ (p : Name) (high : Nat), w.ctl.highestSeenSeq[p]? = some high →
    ∃ u ∈ admissions w.log p, u.seq = high

/-- No refused call of the run has left a trace, and no watermark is made up. -/
structure NoTrace (records : List (CallRecord ω)) (c : ConfiguredController ω) : Prop where
  untouched : ∀ r ∈ records, r.answer ≠ .ok true →
    r.after.cfg = r.before.cfg ∧ Untouched r.before.world r.after.world
  watermarks : WatermarksAdmitted c.world

/-- A rejection is counted. -/
theorem Untouched.of_counters (w : LocalWorld ω) {counters : LocalCounters}
    (h : OnlyRejections w.ctl.counters counters) :
    Untouched w { w with ctl := { w.ctl with counters := counters } } :=
  ⟨counters, h, rfl⟩

theorem Untouched.refl (w : LocalWorld ω) : Untouched w w :=
  ⟨w.ctl.counters, ⟨rfl, rfl, rfl, rfl, rfl⟩, rfl⟩

/-- An update that is neither refused nor accepted has an inadmissible lifetime. -/
theorem applyTraceUpdate_eq_error {what : String}
    (h : applyTraceUpdate cfg cbs p nameHashes prefixLen port seq ttl w = .error what) :
    ¬Leaks cfg w (.applyTraceUpdate p nameHashes prefixLen port seq ttl) := by
  rintro ⟨hnonneg, hagree, -⟩
  unfold applyTraceUpdate at h
  rw [if_neg (Int.not_lt.mpr hnonneg)] at h
  simp only at h
  split at h
  next hdiffers => exact hdiffers.2.2 (hagree hdiffers.1 hdiffers.2.1)
  next =>
    cases hguard : passGuard cfg p seq w.ctl with
    | none =>
        simp only [hguard] at h
        cases h
    | some ctl =>
        simp only [hguard] at h
        split_ifs at h

theorem lifetimes_of_eq_ok {answer : Bool × LocalWorld ω}
    (h : applyTraceUpdate cfg cbs p nameHashes prefixLen port seq ttl w = .ok answer) :
    0 ≤ ttl ∧ (0 < wrap64 (ttl * 1000) → 0 < cfg.entryLifetime →
      wrap64 (ttl * 1000) = cfg.entryLifetime) := by
  unfold applyTraceUpdate at h
  split at h
  · cases h
  next hnonneg =>
    simp only at h
    split at h
    · cases h
    next hagree =>
      refine ⟨Int.not_lt.mp hnonneg, fun hsupplied hconfigured => ?_⟩
      by_contra hne
      exact hagree ⟨hsupplied, hconfigured, hne⟩

/-- A refused update leaves a trace exactly if it leaks into the watermark. -/
theorem untouched_iff_not_leaks
    (h : applyTraceUpdate cfg cbs p nameHashes prefixLen port seq ttl w = .ok (false, w')) :
    Untouched w w' ↔ ¬Leaks cfg w (.applyTraceUpdate p nameHashes prefixLen port seq ttl) := by
  rcases applyTraceUpdate_cases h with
    ⟨hguard, heq⟩ | ⟨ctl, s, hguard, hs, hle, heq⟩ | ⟨ctl, -, -, heq⟩
  · obtain rfl : w' = { w with ctl := rejectTrace w.ctl } := congrArg Prod.snd heq
    apply iff_of_true
    · apply Untouched.of_counters
      exact ⟨rfl, rfl, rfl, rfl, rfl⟩
    · rintro ⟨-, -, hon, hnew, -⟩
      simp only [passGuard, hon, if_true] at hguard
      split at hguard
      next high hhigh =>
        split at hguard
        next hstale => exact absurd (hnew high hhigh) (Nat.not_lt.mpr hstale)
        next => cases hguard
      next => cases hguard
  · obtain rfl : w' = { w with ctl := rejectTrace ctl } := congrArg Prod.snd heq
    rcases passGuard_eq_some hguard with ⟨hoff, rfl⟩ | ⟨hon, hnew, rfl⟩
    · apply iff_of_true
      · apply Untouched.of_counters
        exact ⟨rfl, rfl, rfl, rfl, rfl⟩
      · rintro ⟨-, -, hon, -⟩
        rw [hoff] at hon
        cases hon
    · apply iff_of_false
      · rintro ⟨counters, -, hsame⟩
        have hseen := congrArg (fun w : LocalWorld ω => w.ctl.highestSeenSeq[p]?) hsame
        have hseen : (w.ctl.highestSeenSeq.insert p seq)[p]? = w.ctl.highestSeenSeq[p]? := hseen
        rw [Std.TreeMap.getElem?_insert_self] at hseen
        exact Nat.lt_irrefl seq (hnew seq hseen.symm)
      · obtain ⟨hnonneg, hagree⟩ := lifetimes_of_eq_ok h
        exact not_not.mpr ⟨hnonneg, hagree, hon, hnew, s, hs, hle⟩
  · cases congrArg Prod.fst heq

/-- An accepted update is newer than the resident generation. -/
theorem not_leaks_of_admitted
    (h : applyTraceUpdate cfg cbs p nameHashes prefixLen port seq ttl w = .ok (true, w')) :
    ¬Leaks cfg w (.applyTraceUpdate p nameHashes prefixLen port seq ttl) := by
  rintro ⟨-, -, -, -, s, hs, hle⟩
  rcases applyTraceUpdate_cases h with ⟨-, heq⟩ | ⟨ctl, s, -, -, -, heq⟩ | ⟨ctl, -, hnew, -⟩
  · cases congrArg Prod.fst heq
  · cases congrArg Prod.fst heq
  · exact absurd (hnew s hs) (Nat.not_lt.mpr hle)

/-- A refused response is counted and nothing else. -/
theorem untouched_of_acceptResponse (h : (acceptResponse cfg m w).1 = false) :
    Untouched w (acceptResponse cfg m w).2 := by
  unfold acceptResponse at h ⊢
  by_cases htype : m.type = .syncAck
  swap
  · rw [if_pos htype]
    exact Untouched.refl w
  rw [if_neg (not_not.mpr htype)] at h ⊢
  cases hseq : w.ctl.seqMap[m.pfx]? with
  | none =>
      simp only
      split_ifs
      · apply Untouched.of_counters
        exact ⟨rfl, rfl, rfl, rfl, rfl⟩
      · apply Untouched.of_counters
        exact ⟨rfl, rfl, rfl, rfl, rfl⟩
  | some seq =>
      simp only [hseq] at h ⊢
      split_ifs at h ⊢
      · apply Untouched.of_counters
        exact ⟨rfl, rfl, rfl, rfl, rfl⟩
      · apply Untouched.of_counters
        exact ⟨rfl, rfl, rfl, rfl, rfl⟩
      · apply Untouched.of_counters
        exact ⟨rfl, rfl, rfl, rfl, rfl⟩

theorem untouched_of_handleControlResponse
    (h : handleControlResponse cfg cbs m w = (false, w')) : Untouched w w' := by
  unfold handleControlResponse at h
  split at h
  · cases congrArg Prod.fst h
  next hresult =>
    have hrefused : (acceptResponse cfg m w).1 = false := congrArg Prod.fst h
    obtain rfl : (acceptResponse cfg m w).2 = w' := congrArg Prod.snd h
    exact untouched_of_acceptResponse hrefused

/-! ## The calls of a run -/

/-- The call left no trace, if it was refused. -/
def Clean (r : CallRecord ω) : Prop :=
  r.answer ≠ .ok true → r.after.cfg = r.before.cfg ∧ Untouched r.before.world r.after.world

/-- Every call of a run is clean exactly if it does not leak. -/
theorem Run.clean_iff (h : Run records c₀ c) (hr : r ∈ records) :
    Clean r ↔ ¬Leaks r.before.cfg r.before.world r.call := by
  induction h generalizing r with
  | start => cases hr
  | set _ _ ih => exact ih hr
  | getTemporaryFib _ _ ih => exact ih hr
  | other _ _ _ ih => exact ih hr
  | throw hcall _ ih =>
      rcases List.mem_append.mp hr with hr | hr
      · exact ih hr
      · obtain rfl := List.mem_singleton.mp hr
        exact iff_of_true (fun _ => ⟨rfl, Untouched.refl _⟩) (applyTraceUpdate_eq_error hcall)
  | refuse hcall _ ih =>
      rcases List.mem_append.mp hr with hr | hr
      · exact ih hr
      · obtain rfl := List.mem_singleton.mp hr
        rw [← untouched_iff_not_leaks hcall]
        exact ⟨fun hclean => (hclean (by simp)).2, fun hsame _ => ⟨rfl, hsame⟩⟩
  | admission hcall _ _ _ hinner ih =>
      rcases List.mem_append.mp hr with hr | hr
      · exact (List.mem_append.mp hr).elim (fun hr => ih hr) fun hr => hinner hr
      · obtain rfl := List.mem_singleton.mp hr
        exact iff_of_true (fun hrefused => absurd rfl hrefused) (not_leaks_of_admitted hcall)
  | ignore hcall _ ih =>
      rcases List.mem_append.mp hr with hr | hr
      · exact ih hr
      · obtain rfl := List.mem_singleton.mp hr
        exact iff_of_true (fun _ => ⟨rfl, untouched_of_handleControlResponse hcall⟩) id
  | complete _ _ _ _ hinner ih =>
      rcases List.mem_append.mp hr with hr | hr
      · exact (List.mem_append.mp hr).elim (fun hr => ih hr) fun hr => hinner hr
      · obtain rfl := List.mem_singleton.mp hr
        exact iff_of_true (fun hrefused => absurd rfl hrefused) id
  | expire _ _ _ ih => exact ih hr
  | giveUp _ _ _ _ ih => exact ih hr
  | retry _ _ _ _ _ _ hinner ih =>
      exact (List.mem_append.mp hr).elim (fun hr => ih hr) fun hr => hinner hr

/-! ## Watermarks -/

theorem WatermarksAdmitted.congr (h : WatermarksAdmitted w)
    (hseen : w'.ctl.highestSeenSeq = w.ctl.highestSeenSeq)
    (hlog : ∀ p, admissions w'.log p = admissions w.log p) : WatermarksAdmitted w' := by
  intro p high hhigh
  rw [hseen] at hhigh
  rw [hlog]
  exact h p high hhigh

theorem WatermarksAdmitted.untouched (h : WatermarksAdmitted w) (hsame : Untouched w w') :
    WatermarksAdmitted w' := by
  obtain ⟨counters, -, rfl⟩ := hsame
  exact h.congr rfl fun _ => rfl

theorem WatermarksAdmitted.dispatch_silent (h : WatermarksAdmitted w) (m : ControlMessage) :
    WatermarksAdmitted (dispatch (silent cbs) m w) := by
  unfold dispatch silent
  cases cbs.request with
  | none => exact h
  | some request => exact h.congr rfl fun _ => by simp [admissions]

/-- An accepted update is a new watermark, if the guard is on. -/
theorem WatermarksAdmitted.admission (h : WatermarksAdmitted w)
    (hcall : applyTraceUpdate cfg (silent cbs) p nameHashes prefixLen port seq ttl w =
      .ok (true, w')) : WatermarksAdmitted w' := by
  rcases applyTraceUpdate_cases hcall with ⟨-, heq⟩ | ⟨ctl, s, -, -, -, heq⟩ | ⟨ctl, hguard, -, heq⟩
  · cases congrArg Prod.fst heq
  · cases congrArg Prod.fst heq
  obtain rfl := congrArg Prod.snd heq
  apply WatermarksAdmitted.dispatch_silent
  have hstages := stages_stage cfg (silent cbs)
    (candidate cfg p nameHashes prefixLen port seq ttl w) { w with ctl := ctl }
  intro q high hhigh
  rw [hstages.seen] at hhigh
  rw [hstages.log, admissions_append]
  have hold : ∀ high, w.ctl.highestSeenSeq[q]? = some high →
      ∃ u ∈ admissions w.log q ++ admissions [.admitted
        (candidate cfg p nameHashes prefixLen port seq ttl w)] q, u.seq = high := by
    intro high hhigh
    obtain ⟨u, hu, hseq⟩ := h q high hhigh
    exact ⟨u, List.mem_append_left _ hu, hseq⟩
  rcases passGuard_eq_some hguard with ⟨-, rfl⟩ | ⟨-, -, rfl⟩
  · exact hold high hhigh
  · have hmark : (w.ctl.highestSeenSeq.insert p seq)[q]? = some high := hhigh
    simp only [Std.TreeMap.getElem?_insert, Std.LawfulEqCmp.compare_eq_iff_eq] at hmark
    split at hmark
    next hpq =>
      subst hpq
      refine ⟨candidate cfg p nameHashes prefixLen port seq ttl w, ?_, Option.some.inj hmark⟩
      apply List.mem_append_right
      simp [admissions, candidate]
    next => exact hold high hmark

theorem WatermarksAdmitted.rescheduleRetry (h : WatermarksAdmitted w) (p : Name) (s : Nat) :
    WatermarksAdmitted (rescheduleRetry cfg p s w) := by
  unfold LocalRouteController.rescheduleRetry
  split
  · split
    · exact h.congr rfl fun _ => rfl
    · exact h
  · exact h

theorem WatermarksAdmitted.take (h : WatermarksAdmitted w) (e : Scheduled LocalEvent) :
    WatermarksAdmitted (take e w) :=
  h.congr rfl fun _ => rfl

/-- The retry handler writes no watermark before it calls the request callback. -/
theorem WatermarksAdmitted.retryRequest (h : WatermarksAdmitted w)
    (hrequest : retryRequest p seq w = some (m, w')) : WatermarksAdmitted w' := by
  unfold LocalRouteController.retryRequest at hrequest
  split at hrequest
  · cases hrequest
  · split at hrequest
    · obtain ⟨-, rfl⟩ := Prod.mk.inj (Option.some.inj hrequest)
      exact h.congr rfl fun _ => rfl
    · cases hrequest

theorem WatermarksAdmitted.giveUp (h : WatermarksAdmitted w)
    (hnone : LocalRouteController.retryRequest p seq w = none) :
    WatermarksAdmitted (onControllerRetryTimeout cfg cbs p seq w) := by
  simp only [onControllerRetryTimeout]
  split
  · exact h
  next pending hpending =>
    split_ifs with hother hresident hleft
    · exact h
    · exact h.congr rfl fun _ => rfl
    · rw [not_not] at hother hresident
      rw [LocalRouteController.retryRequest, hpending] at hnone
      simp [hother, hresident, hleft] at hnone
    · exact h.congr rfl fun _ => by simp [admissions]

theorem Run.watermarks (h : Run records c₀ c) (hinit : WatermarksAdmitted c₀.world)
    (hclean : ∀ r ∈ records, ¬Leaks r.before.cfg r.before.world r.call) :
    WatermarksAdmitted c.world := by
  induction h with
  | start => exact hinit
  | set hset _ ih =>
      rw [Setter.apply_world hset]
      exact ih hinit hclean
  | getTemporaryFib table _ ih => exact (ih hinit hclean).congr rfl fun _ => rfl
  | other clock env _ ih => exact (ih hinit hclean).congr rfl fun _ => rfl
  | throw _ _ ih => exact ih hinit fun r hr => hclean r (List.mem_append_left _ hr)
  | refuse hcall _ ih =>
      have hbefore := ih hinit fun r hr => hclean r (List.mem_append_left _ hr)
      apply hbefore.untouched
      rw [untouched_iff_not_leaks hcall]
      exact hclean _ (List.mem_append_right _ List.mem_cons_self)
  | admission _ hcalled _ _ hinner ih =>
      have hbefore := ih hinit fun r hr => hclean r
        (List.mem_append_left _ (List.mem_append_left _ hr))
      exact hinner (hbefore.admission hcalled) fun r hr => hclean r
        (List.mem_append_left _ (List.mem_append_right _ hr))
  | ignore hcall _ ih =>
      have hbefore := ih hinit fun r hr => hclean r (List.mem_append_left _ hr)
      exact hbefore.untouched (untouched_of_handleControlResponse hcall)
  | @complete _ _ _ c _ m w _ hcalled _ _ hinner ih =>
      have hbefore := ih hinit fun r hr => hclean r
        (List.mem_append_left _ (List.mem_append_left _ hr))
      refine hinner ?_ fun r hr => hclean r
        (List.mem_append_left _ (List.mem_append_right _ hr))
      have hafter : (acceptResponse c.cfg m c.world).2 = w := congrArg Prod.snd hcalled
      rw [← hafter]
      exact hbefore.congr (highestSeenSeq_acceptResponse m) (admissions_acceptResponse m)
  | @expire _ _ _ e p s _ hevent _ ih =>
      refine (ih hinit hclean).congr ?_ fun _ => ?_
      · simp only [fire, hevent, highestSeenSeq_expireEntryBySeq]
        rfl
      · simp only [fire, hevent]
        rfl
  | giveUp _ hevent hnone _ ih =>
      simp only [fire, hevent]
      exact ((ih hinit hclean).take _).giveUp hnone
  | retry _ _ hrequest _ _ _ hinner ih =>
      have hbefore := ih hinit fun r hr => hclean r (List.mem_append_left _ hr)
      have hinside := hinner (((hbefore.take _).retryRequest hrequest).dispatch_silent _)
        fun r hr => hclean r (List.mem_append_right _ hr)
      exact hinside.rescheduleRetry _ _

/-- In every run, also one that changes the settings while routes are resident, refused
calls leave no trace and every watermark has been admitted if and only if no refused
update lies between the watermark and the resident generation. -/
theorem noTrace_iff (hfresh : IsFresh c₀.world) (hrun : Run records c₀ c) :
    NoTrace records c ↔ ∀ r ∈ records, ¬Leaks r.before.cfg r.before.world r.call := by
  constructor
  · intro h r hr
    exact (hrun.clean_iff hr).mp (h.untouched r hr)
  · intro hclean
    refine ⟨fun r hr => (hrun.clean_iff hr).mpr (hclean r hr), hrun.watermarks ?_ hclean⟩
    intro p high hhigh
    rw [hfresh.1] at hhigh
    simp at hhigh

/-! ## The guard is switched on while a route is resident -/

/-- A controller as the constructor leaves it. -/
def defaultController : ConfiguredController Unit where
  cfg := { entryLifetime := 0, controllerRetryTimeout := 0, controllerRetryLimit := 3
           generationGuardEnabled := false }
  cbs := ⟨none, none⟩
  world := freshWorld

/-- Without the guard, generation 5 is admitted. -/
def unguardedWorld : LocalWorld Unit :=
  publish defaultController.cfg defaultController.cbs
    (candidate defaultController.cfg [] [] 0 7 5 0 freshWorld) freshWorld

def guardedController : ConfiguredController Unit where
  cfg := { defaultController.cfg with generationGuardEnabled := true }
  cbs := defaultController.cbs
  world := unguardedWorld

/-- With the guard, generation 3 is refused because of generation 5, but stays as the
watermark. -/
def leakedController : ConfiguredController Unit :=
  { guardedController with world := { unguardedWorld with
    ctl := rejectTrace { unguardedWorld.ctl with
      highestSeenSeq := (∅ : Std.TreeMap Name Nat).insert [] 3 } } }

def leakedRecords : List (CallRecord Unit) :=
  [⟨defaultController, .applyTraceUpdate [] [] 0 7 5 0, .ok true,
    { defaultController with world := unguardedWorld }⟩,
  ⟨guardedController, .applyTraceUpdate [] [] 0 7 3 0, .ok false, leakedController⟩]

theorem run_leakedRecords : Run leakedRecords defaultController leakedController := by
  have hcall : applyTraceUpdate defaultController.cfg defaultController.cbs [] [] 0 7 5 0
      freshWorld = .ok (true, unguardedWorld) := rfl
  have hadmitted := Run.admission hcall (by rfl)
    (.start { defaultController with world := unguardedWorld }) (.start defaultController)
  have hset : (Setter.setGenerationGuardEnabled true).apply
      { defaultController with world := unguardedWorld } = .ok guardedController := rfl
  have hrefused : applyTraceUpdate guardedController.cfg guardedController.cbs [] [] 0 7 3 0
      guardedController.world = .ok (false, leakedController.world) := rfl
  exact Run.refuse hrefused (Run.set hset hadmitted)

theorem not_noTrace_leakedRecords :
    ∃ (records : List (CallRecord Unit)) (c : ConfiguredController Unit),
      Run records defaultController c ∧ ¬NoTrace records c := by
  refine ⟨_, _, run_leakedRecords, fun hclean => ?_⟩
  obtain ⟨u, hu, hseq⟩ := hclean.watermarks [] 3 (by decide)
  have hadmitted : u ∈ [candidate defaultController.cfg [] [] 0 7 5 0 freshWorld] := hu
  rw [List.mem_singleton.mp hadmitted] at hseq
  exact absurd hseq (by decide)

theorem noTrace_iff_leakedRecords :
    NoTrace leakedRecords leakedController ↔
      ∀ r ∈ leakedRecords, ¬Leaks r.before.cfg r.before.world r.call :=
  noTrace_iff ⟨rfl, rfl⟩ run_leakedRecords

end LocalRouteController

end Statim
