import Statim.Control.LocalOrder
import Statim.Support.History

/-!
# Bounded retries

A constant retry timeout and a constant retry limit bound what one admission can
cause.  Its requests are sent at fixed distances from the admission, there are at
most as many as the limit allows, and at the end of the budget or of the lease the
generation has left `m_seqMap`.  The other settings may change at every step.
-/

namespace Statim

open Support Loop

namespace LocalRouteController

variable {ω : Type} {cfg cfg' : LocalConfig} {cbs cbs' : LocalCallbacks ω}
  {w w' w'' : LocalWorld ω} {p q : Name} {u v : Admission} {T n : Nat} {R : Int}
  {log news : List LocalObs} {m : ControlMessage} {o : LocalObs}
  {record : PendingControllerRequest}

/-! ## The requests of an admission -/

/-- The requests that descend from an admission, with the times at which they were sent,
oldest first. -/
def requestsOf (log : List LocalObs) (u : Admission) : List (Nat × ControlMessage) :=
  log.filterMap fun o =>
    match o with
    | .request t m => if m.pfx = u.pfx ∧ m.origin = u.origin then some (t, m) else none
    | _ => none

/-- The first `n` requests of the retry schedule: always the same message, every `T`
from the admission on. -/
def retrySchedule (T : Nat) (u : Admission) (n : Nat) : List (Nat × ControlMessage) :=
  (List.range n).map fun i => (u.time + i * T, u.packetIn)

/-- What ends the residence of the current generation of `p`. -/
def Removes (p : Name) : LocalObs → Prop
  | .admitted u => u.pfx = p
  | .request _ _ => False
  | .completed _ m _ _ _ => m.pfx = p
  | .withdrawn _ q _ => q = p

/-- The update has been admitted, and nothing in the history has removed it. -/
def Unremoved (log : List LocalObs) (u : Admission) : Prop :=
  Since (fun o => o = .admitted u) (fun o => ¬Removes u.pfx o) log

/-- A request carries the message of an admission that nothing has removed before. -/
def Caused (before : List LocalObs) : LocalObs → Prop
  | .request _ m => ∃ u, m = u.packetIn ∧ Unremoved before u
  | _ => True

/-- Neither an admission nor a request. -/
def Quiet : LocalObs → Prop
  | .admitted _ | .request _ _ => False
  | .completed .. | .withdrawn .. => True

theorem requestsOf_append (log news : List LocalObs) (u : Admission) :
    requestsOf (log ++ news) u = requestsOf log u ++ requestsOf news u := by
  simp [requestsOf]

theorem requestsOf_quiet (hnews : ∀ o ∈ news, Quiet o) (u : Admission) :
    requestsOf news u = [] := by
  rw [requestsOf, List.filterMap_eq_nil_iff]
  intro o ho
  have hquiet := hnews o ho
  cases o with
  | admitted v => exact hquiet.elim
  | request t m => exact hquiet.elim
  | completed => rfl
  | withdrawn => rfl

theorem admissions_quiet (hnews : ∀ o ∈ news, Quiet o) (p : Name) : admissions news p = [] := by
  rw [admissions, List.filterMap_eq_nil_iff]
  intro o ho
  have hquiet := hnews o ho
  cases o with
  | admitted v => exact hquiet.elim
  | request t m => exact hquiet.elim
  | completed => rfl
  | withdrawn => rfl

theorem requestsOf_own (u : Admission) (t : Nat) :
    requestsOf [.request t u.packetIn] u = [(t, u.packetIn)] := by
  simp [requestsOf, Admission.packetIn]

theorem requestsOf_other (hne : ¬(v.pfx = u.pfx ∧ v.origin = u.origin)) (t : Nat) :
    requestsOf [.request t v.packetIn] u = [] := by
  simp [requestsOf, Admission.packetIn, hne]

theorem retrySchedule_succ (T : Nat) (u : Admission) (n : Nat) :
    retrySchedule T u (n + 1) = retrySchedule T u n ++ [(u.time + n * T, u.packetIn)] := by
  simp [retrySchedule, List.range_succ]

theorem length_retrySchedule (T : Nat) (u : Admission) (n : Nat) :
    (retrySchedule T u n).length = n := by
  simp [retrySchedule]

theorem Unremoved.mem (h : Unremoved log u) : .admitted u ∈ log := by
  obtain ⟨before, a, after, rfl, rfl, -⟩ := h
  exact List.mem_append_right _ List.mem_cons_self

/-! ## The invariant -/

/-- After `n` requests of the resident generation, the record holds the rest of the
budget, and the next retry is due at its place in the schedule. -/
structure Budget (T : Nat) (R : Int) (w : LocalWorld ω) (u : Admission)
    (record : PendingControllerRequest) (n : Nat) : Prop where
  left : (n : Int) + record.retriesLeft = R + 1
  sent : requestsOf w.log u = retrySchedule T u n
  unremoved : Unremoved w.log u
  timer : ∀ e ∈ w.ctl.events, ∀ s, e.event = .onControllerRetryTimeout u.pfx s →
    e.ts = u.time + n * T

/-- The history follows the retry schedule, and every pending record continues it. -/
structure RetryInv (T : Nat) (R : Int) (w : LocalWorld ω) : Prop where
  numbered : Numbered w.log
  caused : Along Caused w.log
  bounded : ∀ u, .admitted u ∈ w.log →
    ∃ n ≤ R.toNat + 1, requestsOf w.log u = retrySchedule T u n
  budget : ∀ u record, lastAdmission w.log u.pfx = some u →
    w.ctl.pendingControllerRequests[u.pfx]? = some record → ∃ n, Budget T R w u record n

/-- Every request descends from an update that has been admitted. -/
theorem RetryInv.origin_lt (h : RetryInv T R w) {t : Nat} (hm : .request t m ∈ w.log) :
    m.origin < (admissions w.log m.pfx).length := by
  obtain ⟨before, hbefore, hcaused⟩ := h.caused.of_mem hm
  obtain ⟨v, rfl, hunremoved⟩ := hcaused
  exact h.numbered.lt_length (hbefore.subset hunremoved.mem)

/-- An update that is about to be admitted has caused no request yet. -/
theorem RetryInv.requestsOf_new (h : RetryInv T R w)
    (horigin : u.origin = (admissions w.log u.pfx).length) : requestsOf w.log u = [] := by
  rw [requestsOf, List.filterMap_eq_nil_iff]
  intro o ho
  cases o with
  | admitted v => rfl
  | request t m =>
      have hlt := h.origin_lt ho
      refine if_neg ?_
      rintro ⟨hpfx, heq⟩
      rw [hpfx, heq, horigin] at hlt
      exact Nat.lt_irrefl _ hlt
  | completed => rfl
  | withdrawn => rfl

/-- The requests of two updates are never confused. -/
theorem key_ne (h : Numbered log) (hu : .admitted u ∈ log) (hv : .admitted v ∈ log)
    (hne : u ≠ v) : ¬(v.pfx = u.pfx ∧ v.origin = u.origin) := by
  rintro ⟨hpfx, horigin⟩
  exact hne (h.eq_of_origin hu hv hpfx.symm horigin.symm)

/-! ## Steps that send nothing -/

/-- Nothing is admitted, requested or scheduled; records may be removed, with or without
a trace in the history. -/
structure Quietly (w w' : LocalWorld ω) : Prop where
  log : ∃ news, w'.log = w.log ++ news ∧ (∀ o ∈ news, Quiet o) ∧
    ∀ (p : Name) (record : PendingControllerRequest),
      w'.ctl.pendingControllerRequests[p]? = some record →
        w.ctl.pendingControllerRequests[p]? = some record ∧ ∀ o ∈ news, ¬Removes p o
  seq : ∀ (p : Name) (s : Nat), w'.ctl.seqMap[p]? = some s → w.ctl.seqMap[p]? = some s
  events : ∀ e ∈ w'.ctl.events, e ∈ w.ctl.events

theorem Quietly.of_pending (hlog : w'.log = w.log)
    (hpending : ∀ (p : Name) (record : PendingControllerRequest),
      w'.ctl.pendingControllerRequests[p]? = some record →
        w.ctl.pendingControllerRequests[p]? = some record)
    (hseq : ∀ (p : Name) (s : Nat), w'.ctl.seqMap[p]? = some s → w.ctl.seqMap[p]? = some s)
    (hevents : ∀ e ∈ w'.ctl.events, e ∈ w.ctl.events) : Quietly w w' :=
  ⟨⟨[], by simpa using hlog, by simp, fun p record hp => ⟨hpending p record hp, by simp⟩⟩,
    hseq, hevents⟩

/-- Only parts of the state have changed that retries do not read. -/
theorem Quietly.of_same (hlog : w'.log = w.log)
    (hpending : w'.ctl.pendingControllerRequests = w.ctl.pendingControllerRequests)
    (hseq : w'.ctl.seqMap = w.ctl.seqMap) (hevents : w'.ctl.events = w.ctl.events) :
    Quietly w w' := by
  apply Quietly.of_pending hlog
  · rw [hpending]
    exact fun _ _ h => h
  · rw [hseq]
    exact fun _ _ h => h
  · rw [hevents]
    exact fun _ h => h

theorem Quietly.trans (h : Quietly w w') (h' : Quietly w' w'') : Quietly w w'' := by
  obtain ⟨news, hlog, hquiet, hpending⟩ := h.log
  obtain ⟨news', hlog', hquiet', hpending'⟩ := h'.log
  refine ⟨⟨news ++ news', ?_, ?_, fun p record hp => ?_⟩, fun p s hs => ?_, fun e he => ?_⟩
  · rw [hlog', hlog, List.append_assoc]
  · exact fun o ho => (List.mem_append.mp ho).elim (hquiet o) (hquiet' o)
  · obtain ⟨hmid, hkeep'⟩ := hpending' p record hp
    obtain ⟨hold, hkeep⟩ := hpending p record hmid
    exact ⟨hold, fun o ho => (List.mem_append.mp ho).elim (hkeep o) (hkeep' o)⟩
  · exact h.seq p s (h'.seq p s hs)
  · exact h.events e (h'.events e he)

theorem Quietly.admissions (h : Quietly w w') (p : Name) :
    admissions w'.log p = admissions w.log p := by
  obtain ⟨news, hlog, hquiet, -⟩ := h.log
  rw [hlog, admissions_append, admissions_quiet hquiet, List.append_nil]

theorem Quietly.lastAdmission (h : Quietly w w') (p : Name) :
    lastAdmission w'.log p = lastAdmission w.log p :=
  congrArg List.getLast? (h.admissions p)

theorem Quietly.requestsOf (h : Quietly w w') (u : Admission) :
    requestsOf w'.log u = requestsOf w.log u := by
  obtain ⟨news, hlog, hquiet, -⟩ := h.log
  rw [hlog, requestsOf_append, requestsOf_quiet hquiet, List.append_nil]

theorem Quietly.mem_admitted (h : Quietly w w') : .admitted u ∈ w'.log ↔ .admitted u ∈ w.log := by
  have hmem := congrArg (u ∈ ·) (h.admissions u.pfx)
  simpa only [mem_admissions, and_true, eq_iff_iff] using hmem

theorem RetryInv.quietly (h : RetryInv T R w) (hquietly : Quietly w w') : RetryInv T R w' where
  numbered p i u hu := by
    rw [hquietly.admissions] at hu
    exact h.numbered p i u hu
  caused := by
    obtain ⟨news, hlog, hquiet, -⟩ := hquietly.log
    rw [hlog]
    apply h.caused.append
    intro before o ho
    have hquiet := hquiet o ho
    cases o with
    | admitted v => trivial
    | request t m => exact hquiet.elim
    | completed => trivial
    | withdrawn => trivial
  bounded u hu := by
    rw [hquietly.requestsOf]
    exact h.bounded u (hquietly.mem_admitted.mp hu)
  budget u record hlast hp := by
    obtain ⟨news, hlog, -, hpending⟩ := hquietly.log
    obtain ⟨hold, hkeep⟩ := hpending u.pfx record hp
    rw [hquietly.lastAdmission] at hlast
    obtain ⟨n, hbudget⟩ := h.budget u record hlast hold
    refine ⟨n, hbudget.left, ?_, ?_, fun e he s hs => ?_⟩
    · rw [hquietly.requestsOf]
      exact hbudget.sent
    · rw [Unremoved, hlog]
      exact Since.append hbudget.unremoved hkeep
    · exact hbudget.timer e (hquietly.events e he) s hs

theorem Quietly.acceptResponse (m : ControlMessage) (w : LocalWorld ω) :
    Quietly w (acceptResponse cfg m w).2 := by
  rcases acceptResponse_cases cfg m w with ⟨counters, heq⟩ | ⟨seq, -, -, -, -, -, heq⟩
  · rw [heq]
    exact Quietly.of_same rfl rfl rfl rfl
  · rw [heq]
    refine ⟨⟨[_], rfl, ?_, fun p record hp => ?_⟩, fun p s hs => ?_, fun e he => ?_⟩
    · intro o ho
      rw [List.mem_singleton.mp ho]
      trivial
    · have hp : (w.ctl.pendingControllerRequests.erase m.pfx)[p]? = some record := hp
      simp only [Std.TreeMap.getElem?_erase, Std.LawfulEqCmp.compare_eq_iff_eq] at hp
      split at hp
      · cases hp
      next hne =>
        refine ⟨hp, fun o ho => ?_⟩
        rw [List.mem_singleton.mp ho]
        exact hne
    · exact getElem?_of_erase hs
    · exact (Support.mem_cancel?.mp (Support.mem_cancel?.mp he).1).1

theorem Reenter.quietly (h : Reenter cfg w w') : Quietly w w' := by
  induction h with
  | refl => exact Quietly.of_same rfl rfl rfl rfl
  | respond m _ ih => exact ih.trans (Quietly.acceptResponse m _)
  | exact p _ ih => exact ih.trans (Quietly.of_same rfl rfl rfl rfl)
  | longest name _ ih => exact ih.trans (Quietly.of_same rfl rfl rfl rfl)
  | other huid env _ ih => exact ih.trans (Quietly.of_same rfl rfl rfl rfl)

theorem Reenter.now (h : Reenter cfg w w') : w'.clock.now = w.clock.now := by
  induction h with
  | refl => rfl
  | @respond w' m _ ih =>
      refine Eq.trans ?_ ih
      rcases acceptResponse_cases cfg m w' with ⟨counters, heq⟩ | ⟨seq, -, -, -, -, -, heq⟩
      · rw [heq]
      · rw [heq]
  | exact p _ ih => exact ih
  | longest name _ ih => exact ih
  | other huid env _ ih => exact ih

theorem reenter_dispatch (hset : cbs.request.isSome = true) (hpassive : Passive cfg cbs)
    (m : ControlMessage) (w : LocalWorld ω) :
    Reenter cfg { w with log := w.log ++ [.request w.clock.now m] } (dispatch cbs m w) := by
  obtain ⟨request, hrequest⟩ := Option.isSome_iff_exists.mp hset
  simp only [dispatch, hrequest]
  exact hpassive.request request hrequest m _

/-! ## Generations that are gone -/

/-- The update has been admitted and is no longer resident; `sent` are its requests. -/
structure Gone (u : Admission) (sent : List (Nat × ControlMessage)) (w : LocalWorld ω) :
    Prop where
  admitted : .admitted u ∈ w.log
  removed : ¬Current w u.pfx u
  sent : requestsOf w.log u = sent

theorem Gone.quietly {sent : List (Nat × ControlMessage)} (h : Gone u sent w)
    (hquietly : Quietly w w') : Gone u sent w' where
  admitted := hquietly.mem_admitted.mpr h.admitted
  removed := by
    rintro ⟨hlast, hseq⟩
    rw [hquietly.lastAdmission] at hlast
    exact h.removed ⟨hlast, hquietly.seq _ _ hseq⟩
  sent := (hquietly.requestsOf u).trans h.sent

/-- The state `w'` keeps the retry schedule and brings no generation back. -/
structure Follows (T : Nat) (R : Int) (w w' : LocalWorld ω) : Prop where
  inv : RetryInv T R w'
  gone : ∀ u sent, Gone u sent w → Gone u sent w'

theorem RetryInv.follows (h : RetryInv T R w) (hquietly : Quietly w w') : Follows T R w w' :=
  ⟨h.quietly hquietly, fun _ _ hgone => hgone.quietly hquietly⟩

theorem Follows.quietly (h : Follows T R w w') (hquietly : Quietly w' w'') : Follows T R w w'' :=
  ⟨h.inv.quietly hquietly, fun u sent hgone => (h.gone u sent hgone).quietly hquietly⟩

/-! ## Admission -/

/-- An admitted update together with its first request. -/
theorem RetryInv.admit (h : RetryInv T R w)
    (horigin : u.origin = (admissions w.log u.pfx).length)
    (hlog : w'.log = w.log ++ [.admitted u] ++ [.request u.time u.packetIn])
    (hpending : ∀ q, w'.ctl.pendingControllerRequests[q]? = if u.pfx = q then some record
      else w.ctl.pendingControllerRequests[q]?)
    (hleft : record.retriesLeft = R)
    (hevents : ∀ e ∈ w'.ctl.events, ∀ q s, e.event = .onControllerRetryTimeout q s →
      if u.pfx = q then e.ts = u.time + T else e ∈ w.ctl.events) : RetryInv T R w' := by
  have hnumbered : Numbered (w.log ++ [.admitted u]) := h.numbered.admit horigin
  have hadmissions : ∀ q, admissions w'.log q = admissions (w.log ++ [.admitted u]) q := by
    intro q
    rw [hlog, admissions_append]
    exact List.append_nil _
  have hadmitted : ∀ v, .admitted v ∈ w'.log → .admitted v ∈ w.log ∨ v = u := by
    intro v hv
    rw [hlog] at hv
    simpa using hv
  have hrequests : ∀ v, requestsOf w'.log v =
      requestsOf w.log v ++ requestsOf [.request u.time u.packetIn] v := by
    intro v
    rw [hlog, requestsOf_append, requestsOf_append]
    exact congrArg (· ++ _) (List.append_nil _)
  have hown : requestsOf w'.log u = retrySchedule T u 1 := by
    rw [hrequests, h.requestsOf_new horigin, requestsOf_own]
    simp [retrySchedule]
  have hother : ∀ v, .admitted v ∈ w.log → requestsOf w'.log v = requestsOf w.log v := by
    intro v hv
    rw [hrequests, requestsOf_other, List.append_nil]
    rintro ⟨hpfx, heq⟩
    have hlt := h.numbered.lt_length hv
    rw [← hpfx, ← heq, horigin] at hlt
    exact Nat.lt_irrefl _ hlt
  have hunremoved : Unremoved (w.log ++ [.admitted u]) u := ⟨w.log, _, [], rfl, rfl, by simp⟩
  refine ⟨fun p i v hv => ?_, ?_, fun v hv => ?_, fun v record' hlast hp => ?_⟩
  · rw [hadmissions] at hv
    exact hnumbered p i v hv
  · rw [hlog]
    have hcaused : Along Caused (w.log ++ [.admitted u]) := h.caused.snoc trivial
    exact hcaused.snoc ⟨u, rfl, hunremoved⟩
  · rcases hadmitted v hv with hv | rfl
    · rw [hother v hv]
      exact h.bounded v hv
    · exact ⟨1, by omega, hown⟩
  · rw [lastAdmission, hadmissions] at hlast
    have hlast : lastAdmission (w.log ++ [.admitted u]) v.pfx = some v := hlast
    rw [lastAdmission_admitted] at hlast
    rw [hpending] at hp
    by_cases hpfx : u.pfx = v.pfx
    · rw [if_pos hpfx] at hlast hp
      obtain rfl := Option.some.inj hlast
      obtain rfl := Option.some.inj hp
      refine ⟨1, by omega, hown, ?_, fun e he s hs => ?_⟩
      · rw [hlog]
        exact Since.append hunremoved (by simp [Removes])
      · have hts := hevents e he _ s hs
        rw [if_pos rfl] at hts
        rw [hts, Nat.one_mul]
    · rw [if_neg hpfx] at hlast hp
      obtain ⟨n, hbudget⟩ := h.budget v record' hlast hp
      have hv : .admitted v ∈ w.log := (mem_of_lastAdmission hlast).1
      refine ⟨n, hbudget.left, (hother v hv).trans hbudget.sent, ?_, fun e he s hs => ?_⟩
      · rw [hlog, List.append_assoc]
        exact Since.append hbudget.unremoved (by simp [Removes, hpfx])
      · have hold := hevents e he _ s hs
        rw [if_neg hpfx] at hold
        exact hbudget.timer e hold s hs

/-- Admission brings no other generation back. -/
theorem Gone.admit {sent : List (Nat × ControlMessage)} (h : Gone v sent w)
    (hinv : RetryInv T R w) (horigin : u.origin = (admissions w.log u.pfx).length)
    (hlog : w'.log = w.log ++ [.admitted u] ++ [.request u.time u.packetIn])
    (hseq : ∀ q, w'.ctl.seqMap[q]? = if u.pfx = q then some u.seq else w.ctl.seqMap[q]?) :
    Gone v sent w' := by
  have hkey : ¬(u.pfx = v.pfx ∧ u.origin = v.origin) := by
    rintro ⟨hpfx, heq⟩
    have hlt := hinv.numbered.lt_length h.admitted
    rw [← hpfx, ← heq, horigin] at hlt
    exact Nat.lt_irrefl _ hlt
  refine ⟨?_, ?_, ?_⟩
  · rw [hlog, List.append_assoc]
    exact List.mem_append_left _ h.admitted
  · rintro ⟨hlast, hcurrent⟩
    rw [hlog, lastAdmission_request, lastAdmission_admitted] at hlast
    rw [hseq] at hcurrent
    split at hlast
    next hpfx =>
      obtain rfl := Option.some.inj hlast
      exact hkey ⟨rfl, rfl⟩
    next hpfx =>
      rw [if_neg hpfx] at hcurrent
      exact h.removed ⟨hlast, hcurrent⟩
  · rw [hlog, requestsOf_append, requestsOf_append, requestsOf_other hkey, List.append_nil]
    exact (List.append_nil _).trans h.sent

/-- A request callback that admits nothing, with the retry timeout `T` and the retry
limit `R`. -/
structure RetriesEvery (T : Nat) (R : Int) (cfg : LocalConfig) (cbs : LocalCallbacks ω) :
    Prop where
  request : cbs.request.isSome = true
  passive : Passive cfg cbs
  timeout : cfg.controllerRetryTimeout = T
  limit : cfg.controllerRetryLimit = R

theorem RetriesEvery.retrying (h : RetriesEvery T R cfg cbs) (hT : 0 < T) : Retrying cfg cbs := by
  refine ⟨h.request, ?_⟩
  rw [h.timeout]
  exact Int.natCast_pos.mpr hT

theorem RetryInv.publish (h : RetryInv T R w) (hinv : LocalInv cfg cbs none w)
    (hset : RetriesEvery T R cfg cbs) (hT : 0 < T)
    (horigin : u.origin = (admissions w.log u.pfx).length) (htime : u.time = w.clock.now) :
    Follows T R w (publish cfg cbs u w) := by
  have hstages := stages_stage cfg cbs u w
  have hnow : (stage cfg cbs u w).clock.now = u.time := hstages.now.trans htime.symm
  have hreenter := reenter_dispatch hset.request hset.passive u.packetIn (stage cfg cbs u w)
  rw [hnow, hstages.log] at hreenter
  refine Follows.quietly ⟨?_, fun v sent hgone => ?_⟩ hreenter.quietly
  · refine h.admit horigin rfl (getElem?_pending_stage (hset.retrying hT) u w)
      hset.limit ?_
    intro e he q s hevent
    rcases (hinv.mem_stage_events u e).mp he with ⟨hold, hpfx⟩ | ⟨-, rfl⟩ | ⟨-, rfl⟩
    · have hne : q ≠ u.pfx := by
        rw [hevent] at hpfx
        exact hpfx
      rw [if_neg (Ne.symm hne)]
      exact hold
    · cases hevent
    · obtain ⟨rfl, -⟩ : u.pfx = q ∧ u.seq = s := by simpa [retryEvent] using hevent
      have hentered : (entered u w).clock.now = u.time :=
        (stages_entered u w).now.trans htime.symm
      rw [if_pos rfl, retryEvent, Clock.schedule_ts, hentered, hset.timeout, Int.toNat_natCast]
  · exact hgone.admit h horigin rfl hstages.seq

theorem RetryInv.applyTraceUpdate (h : RetryInv T R w) (hinv : LocalInv cfg cbs none w)
    (hset : RetriesEvery T R cfg cbs) (hT : 0 < T) {nameHashes : Bytes}
    {prefixLen port seq : Nat} {ttl : Int} {r : Bool × LocalWorld ω}
    (hr : applyTraceUpdate cfg cbs p nameHashes prefixLen port seq ttl w = .ok r) :
    Follows T R w r.2 := by
  rcases applyTraceUpdate_cases hr with
    ⟨-, rfl⟩ | ⟨ctl, s, hguard, -, -, rfl⟩ | ⟨ctl, hguard, -, rfl⟩
  · exact h.follows (Quietly.of_same rfl rfl rfl rfl)
  · obtain ⟨seen, rfl⟩ := exists_passGuard_eq hguard
    exact h.follows (Quietly.of_same rfl rfl rfl rfl)
  · obtain ⟨seen, rfl⟩ := exists_passGuard_eq hguard
    have hquietly : Quietly w { w with ctl := { w.ctl with highestSeenSeq := seen } } :=
      Quietly.of_same rfl rfl rfl rfl
    have hmarked := hinv.watermark w.ctl.counters seen
    obtain ⟨hkept, hgone⟩ := (h.quietly hquietly).publish hmarked hset hT
      (u := candidate cfg p nameHashes prefixLen port seq ttl w) rfl rfl
    exact ⟨hkept, fun u sent hu => hgone u sent (hu.quietly hquietly)⟩

/-! ## Retries -/

/-- The request of a resident generation whose retry timer has just fired.  No retry
event is left in the queue until the handler schedules the next one. -/
theorem RetryInv.resend (h : RetryInv T R w) (hlast : lastAdmission w.log u.pfx = some u)
    (hbudget : Budget T R w u record n) (hleft : 0 < record.retriesLeft)
    (hlog : w'.log = w.log ++ [.request (u.time + n * T) u.packetIn])
    (hpending : ∀ q, w'.ctl.pendingControllerRequests[q]? = if u.pfx = q
      then some { record with retriesLeft := record.retriesLeft - 1 }
      else w.ctl.pendingControllerRequests[q]?)
    (hevents : ∀ e ∈ w'.ctl.events, e ∈ w.ctl.events)
    (hnone : ∀ e ∈ w'.ctl.events, ∀ s, e.event ≠ .onControllerRetryTimeout u.pfx s) :
    RetryInv T R w' := by
  have hu : .admitted u ∈ w.log := (mem_of_lastAdmission hlast).1
  have hadmissions : ∀ q, admissions w'.log q = admissions w.log q := by
    intro q
    rw [hlog, admissions_append]
    exact List.append_nil _
  have hadmitted : ∀ v, .admitted v ∈ w'.log → .admitted v ∈ w.log := by
    intro v hv
    rw [hlog] at hv
    simpa using hv
  have hown : requestsOf w'.log u = retrySchedule T u (n + 1) := by
    rw [hlog, requestsOf_append, hbudget.sent, requestsOf_own, retrySchedule_succ]
  have hother : ∀ v, .admitted v ∈ w.log → v ≠ u → requestsOf w'.log v = requestsOf w.log v := by
    intro v hv hne
    rw [hlog, requestsOf_append, requestsOf_other (key_ne h.numbered hv hu hne), List.append_nil]
  have hcount : (n : Int) + record.retriesLeft = R + 1 := hbudget.left
  refine ⟨fun p i v hv => ?_, ?_, fun v hv => ?_, fun v record' hlast' hp => ?_⟩
  · rw [hadmissions] at hv
    exact h.numbered p i v hv
  · rw [hlog]
    exact h.caused.snoc ⟨u, rfl, hbudget.unremoved⟩
  · by_cases hvu : v = u
    · subst hvu
      exact ⟨n + 1, by omega, hown⟩
    · rw [hother v (hadmitted v hv) hvu]
      exact h.bounded v (hadmitted v hv)
  · rw [lastAdmission, hadmissions] at hlast'
    have hlast' : lastAdmission w.log v.pfx = some v := hlast'
    rw [hpending] at hp
    by_cases hpfx : u.pfx = v.pfx
    · rw [if_pos hpfx] at hp
      rw [← hpfx] at hlast'
      obtain rfl := Option.some.inj (hlast.symm.trans hlast')
      obtain rfl := Option.some.inj hp
      refine ⟨n + 1, ?_, hown, ?_, fun e he s hs => absurd hs (hnone e he s)⟩
      · show ((n + 1 : Nat) : Int) + (record.retriesLeft - 1) = R + 1
        omega
      · rw [hlog]
        exact Since.append hbudget.unremoved (by simp [Removes])
    · rw [if_neg hpfx] at hp
      obtain ⟨k, hold⟩ := h.budget v record' hlast' hp
      have hne : v ≠ u := fun heq => hpfx (congrArg Admission.pfx heq.symm)
      refine ⟨k, hold.left, ?_, ?_, fun e he s hs => hold.timer e (hevents e he) s hs⟩
      · rw [hother v (mem_of_lastAdmission hlast').1 hne]
        exact hold.sent
      · rw [hlog]
        exact Since.append hold.unremoved (by simp [Removes])

/-- A retry brings no other generation back. -/
theorem Gone.resend {sent : List (Nat × ControlMessage)} (h : Gone v sent w)
    (hinv : RetryInv T R w) (hcurrent : Current w u.pfx u) {t : Nat}
    (hlog : w'.log = w.log ++ [.request t u.packetIn])
    (hseq : w'.ctl.seqMap = w.ctl.seqMap) : Gone v sent w' := by
  have hu : .admitted u ∈ w.log := (mem_of_lastAdmission hcurrent.1).1
  have hne : v ≠ u := by
    rintro rfl
    exact h.removed hcurrent
  refine ⟨?_, ?_, ?_⟩
  · rw [hlog]
    exact List.mem_append_left _ h.admitted
  · rintro ⟨hlast, hstored⟩
    rw [hlog, lastAdmission_request] at hlast
    rw [hseq] at hstored
    exact h.removed ⟨hlast, hstored⟩
  · rw [hlog, requestsOf_append, requestsOf_other (key_ne hinv.numbered h.admitted hu hne),
      List.append_nil]
    exact h.sent

/-- The next retry is due one timeout later. -/
theorem RetryInv.rescheduleRetry (h : RetryInv T R w)
    (htimeout : cfg.controllerRetryTimeout = T) (hlast : lastAdmission w.log u.pfx = some u)
    (hsent : requestsOf w.log u = retrySchedule T u (n + 1))
    (hnow : w.clock.now = u.time + n * T)
    (hnone : ∀ e ∈ w.ctl.events, ∀ s, e.event ≠ .onControllerRetryTimeout u.pfx s) :
    RetryInv T R (rescheduleRetry cfg u.pfx u.seq w) := by
  unfold LocalRouteController.rescheduleRetry
  cases hp : w.ctl.pendingControllerRequests[u.pfx]? with
  | none => exact h
  | some record =>
      simp only
      split
      swap
      · exact h
      refine { h with budget := fun v record' hlast' hp' => ?_ }
      have hstored : (w.ctl.pendingControllerRequests.insert u.pfx
          { record with timer := w.clock.uid })[v.pfx]? = some record' := hp'
      simp only [Std.TreeMap.getElem?_insert, Std.LawfulEqCmp.compare_eq_iff_eq] at hstored
      by_cases hpfx : u.pfx = v.pfx
      · rw [if_pos hpfx] at hstored
        have hlast' : lastAdmission w.log v.pfx = some v := hlast'
        rw [← hpfx] at hlast'
        obtain rfl := Option.some.inj (hlast.symm.trans hlast')
        obtain rfl := Option.some.inj hstored
        obtain ⟨k, hbudget⟩ := h.budget u record hlast hp
        have hlength := congrArg List.length (hbudget.sent.symm.trans hsent)
        rw [length_retrySchedule, length_retrySchedule] at hlength
        subst hlength
        refine ⟨n + 1, hbudget.left, hbudget.sent, hbudget.unremoved, fun e he s hs => ?_⟩
        rcases List.mem_append.mp he with he | he
        · exact absurd hs (hnone e he s)
        · rw [List.mem_singleton.mp he, Clock.schedule_ts, htimeout, Int.toNat_natCast, hnow,
            Nat.succ_mul, Nat.add_assoc]
      · rw [if_neg hpfx] at hstored
        obtain ⟨k, hbudget⟩ := h.budget v record' hlast' hstored
        refine ⟨k, hbudget.left, hbudget.sent, hbudget.unremoved, fun e he s hs => ?_⟩
        rcases List.mem_append.mp he with he | he
        · exact hbudget.timer e he s hs
        · rw [List.mem_singleton.mp he] at hs
          injection hs with hname
          exact absurd hname hpfx

theorem Gone.rescheduleRetry {sent : List (Nat × ControlMessage)} (h : Gone u sent w)
    (p : Name) (s : Nat) : Gone u sent (rescheduleRetry cfg p s w) := by
  unfold LocalRouteController.rescheduleRetry
  split
  · split
    · exact ⟨h.admitted, h.removed, h.sent⟩
    · exact h
  · exact h

/-- One retry: the request, whatever its callback does, and the next timer. -/
theorem RetryInv.retry (h : RetryInv T R w) (hcurrent : Current w u.pfx u)
    (hbudget : Budget T R w u record n) (hleft : 0 < record.retriesLeft)
    (htimeout : cfg.controllerRetryTimeout = T) (hreenter : Reenter cfg w' w'')
    (hlog : w'.log = w.log ++ [.request (u.time + n * T) u.packetIn])
    (hpending : ∀ q, w'.ctl.pendingControllerRequests[q]? = if u.pfx = q
      then some { record with retriesLeft := record.retriesLeft - 1 }
      else w.ctl.pendingControllerRequests[q]?)
    (hseq : w'.ctl.seqMap = w.ctl.seqMap) (hevents : ∀ e ∈ w'.ctl.events, e ∈ w.ctl.events)
    (hnone : ∀ e ∈ w'.ctl.events, ∀ s, e.event ≠ .onControllerRetryTimeout u.pfx s)
    (hnow : w'.clock.now = u.time + n * T) :
    Follows T R w (LocalRouteController.rescheduleRetry cfg u.pfx u.seq w'') := by
  have hquietly := hreenter.quietly
  have hresent := h.resend hcurrent.1 hbudget hleft hlog hpending hevents hnone
  constructor
  · refine (hresent.quietly hquietly).rescheduleRetry htimeout ?_ ?_ (hreenter.now.trans hnow) ?_
    · rw [hquietly.lastAdmission, hlog, lastAdmission_request]
      exact hcurrent.1
    · rw [hquietly.requestsOf, hlog, requestsOf_append, hbudget.sent, requestsOf_own,
        retrySchedule_succ]
    · exact fun e he => hnone e (hquietly.events e he)
  · intro v sent hgone
    exact ((hgone.resend h hcurrent hlog hseq).quietly hquietly).rescheduleRetry _ _

/-- The retry handler. -/
theorem RetryInv.onControllerRetryTimeout (h : RetryInv T R w) (hinv : LocalInv cfg cbs none w)
    (hset : RetriesEvery T R cfg cbs) {e : Scheduled LocalEvent} (he : IsNext e w.ctl.events)
    {s : Nat} (hevent : e.event = .onControllerRetryTimeout p s) :
    Follows T R w (onControllerRetryTimeout cfg cbs p s (take e w)) := by
  have hbusy := hinv.take_retry he hevent
  obtain ⟨hretry, u, hres, rfl, -⟩ := hinv.resident_of_retry he.1 hevent
  obtain rfl : u.pfx = p := hres.pfx
  obtain ⟨record, hstored, hseq, hmsg, -⟩ := hres.pending.1 hretry
  obtain ⟨n, hbudget⟩ := h.budget u record hres.last hstored
  have hts : e.ts = u.time + n * T := hbudget.timer e he.1 u.seq hevent
  have hevents : ∀ e' ∈ (take e w).ctl.events, e' ∈ w.ctl.events :=
    fun e' he' => (mem_cancel.mp he').1
  -- the event that runs the handler was the only one of its kind
  have hnone : ∀ e' ∈ (take e w).ctl.events, ∀ s,
      e'.event ≠ .onControllerRetryTimeout u.pfx s := by
    obtain ⟨v, hres'⟩ : ∃ v, Resident cfg cbs (some (u.pfx, e.uid)) (take e w) u.pfx v := by
      rcases hbusy.each u.pfx with hvacant | hres'
      · exact absurd (hvacant.seq.symm.trans hres.seq) (by simp)
      · exact hres'
    obtain rfl : u = v := Option.some.inj (hres.last.symm.trans hres'.last)
    obtain ⟨record', -, -, -, -, -, hfired, -⟩ := hres'.pending.1 hretry
    exact (hfired e.uid rfl).2
  have hfound : (take e w).ctl.pendingControllerRequests[u.pfx]? = some record := hstored
  have hkept : (take e w).ctl.seqMap[u.pfx]? = some u.seq := hres.seq
  simp only [LocalRouteController.onControllerRetryTimeout, hfound]
  rw [if_neg (not_not.mpr hseq), if_neg (not_not.mpr hkept)]
  split
  next hleft =>
    refine h.retry hres.current hbudget hleft hset.timeout
      (reenter_dispatch hset.request hset.passive record.msg _) ?_ ?_ ?_ hevents hnone ?_
    · show w.log ++ [.request e.ts record.msg] = _
      rw [hts, hmsg]
    · intro q
      simp [take, Std.TreeMap.getElem?_insert]
    · rfl
    · exact hts
  next =>
    apply h.follows
    refine ⟨⟨[_], rfl, ?_, fun q record' hq => ?_⟩, fun q s hs => getElem?_of_erase hs,
      fun e' he' => ?_⟩
    · intro o ho
      rw [List.mem_singleton.mp ho]
      trivial
    · have hq : (w.ctl.pendingControllerRequests.erase u.pfx)[q]? = some record' := hq
      simp only [Std.TreeMap.getElem?_erase, Std.LawfulEqCmp.compare_eq_iff_eq] at hq
      split at hq
      · cases hq
      next hne =>
        refine ⟨hq, fun o ho => ?_⟩
        rw [List.mem_singleton.mp ho]
        exact hne
    · exact hevents e' (Support.mem_cancel?.mp he').1

theorem RetryInv.fire (h : RetryInv T R w) (hinv : LocalInv cfg cbs none w)
    (hset : RetriesEvery T R cfg cbs) {e : Scheduled LocalEvent} (he : IsNext e w.ctl.events) :
    Follows T R w (fire cfg cbs e w) := by
  unfold LocalRouteController.fire
  cases hevent : e.event with
  | expireEntryBySeq p s =>
      have hvacates := hinv.expire_vacates he hevent
      apply h.follows
      refine Quietly.of_pending rfl (fun q record hq => ?_) (fun q s' hq => ?_) fun e' he' => ?_
      · rw [hvacates.pending] at hq
        split at hq
        · cases hq
        · exact hq
      · rw [hvacates.seq] at hq
        split at hq
        · cases hq
        · exact hq
      · exact ((hvacates.events e').mp he').1
  | onControllerRetryTimeout p s => exact h.onControllerRetryTimeout hinv hset he hevent

/-! ## Runs -/

/-- One step with the retry timeout `T` and the retry limit `R`.  The other settings and
the callbacks may be different at every step. -/
def RetryStep (T : Nat) (R : Int) (w w' : LocalWorld ω) : Prop :=
  ∃ cfg cbs, RetriesEvery T R cfg cbs ∧ LocalStep cfg cbs w w'

/-- The representation invariant depends on the retry settings only. -/
theorem LocalInv.reconfigure {busy : Option (Name × Nat)} (h : LocalInv cfg cbs busy w)
    (hretry : Retrying cfg cbs ↔ Retrying cfg' cbs')
    (hlimit : cfg.controllerRetryLimit = cfg'.controllerRetryLimit) :
    LocalInv cfg' cbs' busy w where
  queue := h.queue
  fired := h.fired
  each q := by
    rcases h.each q with hvacant | ⟨u, hres⟩
    · exact Or.inl hvacant
    · have hpending := hres.pending
      rw [PendingHolds, hretry, hlimit] at hpending
      exact Or.inr ⟨u, { hres with pending := hpending }⟩

/-- What holds between two steps, whatever the other settings are. -/
structure TimedInv (T : Nat) (R : Int) (w : LocalWorld ω) : Prop where
  loc : ∀ (cfg : LocalConfig) (cbs : LocalCallbacks ω), RetriesEvery T R cfg cbs →
    LocalInv cfg cbs none w
  retry : RetryInv T R w

theorem TimedInv.initial (h : IsFresh w) : TimedInv T R w := by
  refine ⟨fun cfg cbs _ => LocalInv.initial h, ?_⟩
  obtain ⟨hctl, hlog⟩ := h
  refine ⟨?_, ?_, ?_, ?_⟩
  · intro p i u hu
    simp [hlog, admissions] at hu
  · rw [hlog]
    exact Along.nil
  · intro u hu
    simp [hlog] at hu
  · intro u record hlast
    simp [hlog, lastAdmission, admissions] at hlast

theorem TimedInv.step (h : TimedInv T R w) (hT : 0 < T) (hstep : RetryStep T R w w') :
    TimedInv T R w' ∧ Follows T R w w' := by
  obtain ⟨cfg, cbs, hset, hstep⟩ := hstep
  have hinv := h.loc cfg cbs hset
  have hfollows : Follows T R w w' := by
    cases hstep with
    | trace hr => exact h.retry.applyTraceUpdate hinv hset hT hr
    | respond m =>
        exact h.retry.follows (reenter_handleControlResponse hset.passive m w).quietly
    | fire he => exact h.retry.fire hinv hset he
    | findExact p => exact h.retry.follows (Quietly.of_same rfl rfl rfl rfl)
    | findLongestPrefix name => exact h.retry.follows (Quietly.of_same rfl rfl rfl rfl)
    | idle clock hnow huid hdue env => exact h.retry.follows (Quietly.of_same rfl rfl rfl rfl)
  refine ⟨⟨fun cfg' cbs' hset' => ?_, hfollows.inv⟩, hfollows⟩
  apply (hinv.step hset.passive hstep).reconfigure
  · exact iff_of_true (hset.retrying hT) (hset'.retrying hT)
  · rw [hset.limit, hset'.limit]

theorem TimedInv.run (h : TimedInv T R w) (hT : 0 < T)
    (hrun : Relation.ReflTransGen (RetryStep T R) w w') : TimedInv T R w' ∧ Follows T R w w' := by
  induction hrun with
  | refl => exact ⟨h, h.retry, fun _ _ hgone => hgone⟩
  | tail _ hlast ih =>
      obtain ⟨hmid, hfollows⟩ := ih
      obtain ⟨hnext, hfollows'⟩ := hmid.step hT hlast
      exact ⟨hnext, hnext.retry, fun u sent hgone => hfollows'.gone u sent
        (hfollows.gone u sent hgone)⟩

/-- What one admission can cause with the retry timeout `T` and the retry limit `R`. -/
structure BoundedBy (T : Nat) (R : Int) (w : LocalWorld ω) : Prop where
  /-- Every request carries the message of an update that nothing has removed before. -/
  caused : Along Caused w.log
  /-- An update causes at most `1 + R` requests, at the first places of its schedule. -/
  requests : ∀ u, .admitted u ∈ w.log →
    ∃ n : Nat, n ≤ 1 + R ∧ requestsOf w.log u = retrySchedule T u n
  /-- A resident generation is the latest update of its prefix, within its retry budget
  and within its lease. -/
  resident : ∀ (p : Name) (s : Nat), w.ctl.seqMap[p]? = some s → ∃ u,
    lastAdmission w.log p = some u ∧ u.seq = s ∧
      (w.clock.now : Int) ≤ u.time + (R + 1) * T ∧
      (0 < u.lifetime → (w.clock.now : Int) ≤ u.time + u.lifetime)

theorem TimedInv.boundedBy (h : TimedInv T R w) (hset : RetriesEvery T R cfg cbs) (hT : 0 < T)
    (hR : 0 ≤ R) : BoundedBy T R w where
  caused := h.retry.caused
  requests u hu := by
    obtain ⟨n, hle, hrequests⟩ := h.retry.bounded u hu
    exact ⟨n, by omega, hrequests⟩
  resident p s hs := by
    have hinv := h.loc cfg cbs hset
    obtain ⟨u, hres⟩ := hinv.resident_of_mem hs
    obtain rfl : u.pfx = p := hres.pfx
    refine ⟨u, hres.last, Option.some.inj (hres.seq.symm.trans hs), ?_, fun hlease => ?_⟩
    · obtain ⟨record, hstored, -, -, hlow, -, -, hidle⟩ := hres.pending.1 (hset.retrying hT)
      obtain ⟨⟨e, he, -, hevent⟩, -⟩ := hidle (by simp)
      obtain ⟨n, hbudget⟩ := h.retry.budget u record hres.last hstored
      have hdue := hinv.queue.due e he
      rw [hbudget.timer e he u.seq hevent] at hdue
      have hleft := hbudget.left
      rw [hset.limit] at hlow
      have hn : (n : Int) ≤ R + 1 := by omega
      have hbound : (n : Int) * T ≤ (R + 1) * T :=
        Int.mul_le_mul_of_nonneg_right hn (Int.natCast_nonneg T)
      have hcast : ((u.time + n * T : Nat) : Int) = u.time + n * T := by push_cast; rfl
      omega
    · have htimer := hres.timer
      rw [TimerHolds, if_pos hlease] at htimer
      obtain ⟨uid, -, hmem, -⟩ := htimer
      have hdue : w.clock.now ≤ u.time + u.lifetime.toNat := hinv.queue.due _ hmem
      have hpositive : (0 : Int) < u.lifetime := hlease
      omega

/-- Bounded retries and bounded residence: in every state of a timed run, the requests of
an update follow its retry schedule and a resident generation is within its budget and
its lease; and an update that is no longer resident never becomes resident again and
sends no further request. -/
theorem retries_bounded (hT : 0 < T) (hR : 0 ≤ R) {w₀ : LocalWorld ω} (hfresh : IsFresh w₀)
    (hrun : Relation.ReflTransGen (RetryStep T R) w₀ w) :
    BoundedBy T R w ∧
      ∀ w', Relation.ReflTransGen (RetryStep T R) w w' →
        ∀ u, .admitted u ∈ w.log → ¬Current w u.pfx u →
          ¬Current w' u.pfx u ∧ requestsOf w'.log u = requestsOf w.log u := by
  obtain ⟨hinv, -⟩ := (TimedInv.initial hfresh).run hT hrun
  have hset : RetriesEvery T R ⟨0, T, R, false⟩
      (⟨some fun _ w => w, none⟩ : LocalCallbacks ω) := by
    refine ⟨rfl, ⟨?_, by rintro f ⟨⟩⟩, rfl, rfl⟩
    rintro f ⟨⟩ m w
    exact Reenter.refl w
  refine ⟨hinv.boundedBy hset hT hR, fun w' hrun' u hu hremoved => ?_⟩
  obtain ⟨-, hfollows⟩ := hinv.run hT hrun'
  have hgone := hfollows.gone u _ ⟨hu, hremoved, rfl⟩
  exact ⟨hgone.removed, hgone.sent⟩

/-! ## One retry -/

/-- The retry timer of the sample update. -/
def sampleRetry : Scheduled LocalEvent := ⟨5, 1, .onControllerRetryTimeout [] 1⟩

def retriedWorld : LocalWorld Unit := fire sampleConfig lossyCallbacks sampleRetry updatedWorld

theorem retries_bounded_retriedWorld :
    BoundedBy 5 3 retriedWorld ∧
      (requestsOf retriedWorld.log (candidate sampleConfig [] [] 0 7 1 2 freshWorld)).map
        Prod.fst = [0, 5] := by
  have hset : RetriesEvery 5 3 sampleConfig lossyCallbacks :=
    ⟨rfl, passive_lossyCallbacks, rfl, rfl⟩
  have hupdate : applyTraceUpdate sampleConfig lossyCallbacks [] [] 0 7 1 2 freshWorld =
      .ok (true, updatedWorld) := rfl
  have hnext : IsNext sampleRetry updatedWorld.ctl.events := ⟨by decide, by decide⟩
  have hrun : Relation.ReflTransGen (RetryStep 5 3) freshWorld retriedWorld :=
    (Relation.ReflTransGen.single ⟨_, _, hset, LocalStep.trace hupdate⟩).tail
      ⟨_, _, hset, LocalStep.fire hnext⟩
  exact ⟨(retries_bounded (by decide) (by decide) ⟨rfl, rfl⟩ hrun).1, by decide⟩

end LocalRouteController

end Statim
