import Statim.Control.FlowTableController

/-!
# Invariant of the flow-table controller

Accepting and applying are separate events with any number of FlowMods in
flight.  What ties them together is the first PacketIn accepted for a prefix
and generation: every FlowMod in flight, every applied FlowMod and every
SyncAck carries its payload.
-/

namespace Statim

open Support

/-! ## Histories -/

/-- The first PacketIn accepted for a prefix and generation. -/
def acceptedAt (log : List FlowTableObs) (pfx : Name) (seq : Nat) : Option ControlMessage :=
  log.findSome? fun o =>
    match o with
    | .accepted m => if m.pfx = pfx ∧ m.seq = seq then some m else none
    | _ => none

/-- The FlowMods applied for a prefix, oldest first. -/
def appliedMessages (log : List FlowTableObs) (pfx : Name) : List ControlMessage :=
  log.filterMap fun o =>
    match o with
    | .applied m => if m.pfx = pfx then some m else none
    | _ => none

/-- The message repeats the first PacketIn accepted for its generation. -/
def FirstAccepted (log : List FlowTableObs) (m : ControlMessage) : Prop :=
  (acceptedAt log m.pfx m.seq).map (·.payload) = some m.payload

/-- A FlowMod with the payload of `m` has been applied. -/
def Applied (log : List FlowTableObs) (m : ControlMessage) : Prop :=
  ∃ a, .applied a ∈ log ∧ a.type = .flowMod ∧ a.payload = m.payload

/-- Every SyncAck in the history follows the application it reports, and is
delivered before the deadline. -/
def AcksAreTrue (log : List FlowTableObs) : Prop :=
  ∀ (i t : Nat) (ack : ControlMessage), log[i]? = some (.acked t ack) →
    ack.type = .syncAck ∧ (ack.routeExpiry = 0 ∨ (t : Int) < ack.routeExpiry) ∧
      ∃ j < i, ∃ m, log[j]? = some (.applied m) ∧ m.type = .flowMod ∧
        m.payload = ack.payload

variable {log log' : List FlowTableObs} {m a : ControlMessage} {p : Name} {s : Nat}

theorem acceptedAt_append (log log' : List FlowTableObs) (p : Name) (s : Nat) :
    acceptedAt (log ++ log') p s = (acceptedAt log p s).or (acceptedAt log' p s) := by
  simp [acceptedAt, List.findSome?_append]

theorem acceptedAt_eq_some (h : acceptedAt log p s = some m) :
    .accepted m ∈ log ∧ m.pfx = p ∧ m.seq = s := by
  obtain ⟨o, ho, heq⟩ := List.exists_of_findSome?_eq_some h
  cases o with
  | accepted m' =>
      simp only [Option.ite_none_right_eq_some, Option.some.injEq] at heq
      obtain ⟨⟨hp, hs⟩, rfl⟩ := heq
      exact ⟨ho, hp, hs⟩
  | applied m' => cases heq
  | acked t m' => cases heq

theorem acceptedAt_eq_none_of_not_mem
    (h : ∀ m, .accepted m ∈ log → m.pfx = p → m.seq ≠ s) : acceptedAt log p s = none := by
  cases hm : acceptedAt log p s with
  | none => rfl
  | some m =>
      obtain ⟨hmem, hp, hs⟩ := acceptedAt_eq_some hm
      exact absurd hs (h m hmem hp)

theorem FirstAccepted.append (h : FirstAccepted log m) (log' : List FlowTableObs) :
    FirstAccepted (log ++ log') m := by
  unfold FirstAccepted at h ⊢
  obtain ⟨x, hx, hpayload⟩ := Option.map_eq_some_iff.mp h
  rw [acceptedAt_append, hx, Option.some_or, Option.map_some, hpayload]

/-- Two messages of one generation that repeat the first PacketIn are equal up to
their type. -/
theorem FirstAccepted.payload_eq (hm : FirstAccepted log m) (ha : FirstAccepted log a)
    (hp : m.pfx = a.pfx) (hs : m.seq = a.seq) : m.payload = a.payload := by
  unfold FirstAccepted at hm ha
  rw [hp, hs] at hm
  exact Option.some.inj (hm.symm.trans ha)

theorem FirstAccepted.congr (hm : FirstAccepted log m) (h : a.payload = m.payload) :
    FirstAccepted log a := by
  unfold FirstAccepted at hm ⊢
  rw [ControlMessage.payload_pfx h, ControlMessage.payload_seq h, h]
  exact hm

theorem appliedMessages_append (log log' : List FlowTableObs) (p : Name) :
    appliedMessages (log ++ log') p = appliedMessages log p ++ appliedMessages log' p := by
  simp [appliedMessages]

theorem mem_appliedMessages :
    m ∈ appliedMessages log p ↔ .applied m ∈ log ∧ m.pfx = p := by
  simp only [appliedMessages, List.mem_filterMap]
  constructor
  · rintro ⟨o, ho, heq⟩
    cases o with
    | accepted m' => cases heq
    | applied m' =>
        simp only [Option.ite_none_right_eq_some, Option.some.injEq] at heq
        obtain ⟨hp, rfl⟩ := heq
        exact ⟨ho, hp⟩
    | acked t m' => cases heq
  · rintro ⟨hmem, hp⟩
    exact ⟨_, hmem, by simp [hp]⟩

theorem Applied.append (h : Applied log m) (log' : List FlowTableObs) :
    Applied (log ++ log') m := by
  obtain ⟨a, ha, hrest⟩ := h
  exact ⟨a, List.mem_append_left _ ha, hrest⟩

theorem AcksAreTrue.nil : AcksAreTrue [] := by
  intro i t ack h
  simp at h

/-- One more observation keeps the history true if it is not a false ack. -/
theorem AcksAreTrue.snoc (h : AcksAreTrue log) {o : FlowTableObs}
    (ho : ∀ t ack, o = .acked t ack →
      ack.type = .syncAck ∧ (ack.routeExpiry = 0 ∨ (t : Int) < ack.routeExpiry) ∧
        Applied log ack) :
    AcksAreTrue (log ++ [o]) := by
  intro i t ack hi
  by_cases hlt : i < log.length
  · rw [List.getElem?_append_left hlt] at hi
    obtain ⟨htype, hlive, j, hj, m, hm, hrest⟩ := h i t ack hi
    refine ⟨htype, hlive, j, hj, m, ?_, hrest⟩
    rwa [List.getElem?_append_left (Nat.lt_trans hj hlt)]
  · rw [List.getElem?_append_right (Nat.le_of_not_lt hlt),
      List.getElem?_singleton] at hi
    obtain ⟨-, hack⟩ := Option.ite_none_right_eq_some.mp hi
    obtain ⟨htype, hlive, m, hm, hrest⟩ := ho t ack (Option.some.inj hack)
    obtain ⟨j, hj, hget⟩ := List.mem_iff_getElem.mp hm
    refine ⟨htype, hlive, j, by omega, m, ?_, hrest⟩
    rw [List.getElem?_append_left hj, List.getElem?_eq_getElem hj, hget]

namespace FlowTableController

variable {σ : Type} {cfg : FlowTableConfig} {cbs : FlowTableCallbacks σ}
  {w w' : FlowTableWorld σ}

/-! ## The invariant -/

/-- What the generation guard keeps. -/
structure GuardInv (w : FlowTableWorld σ) : Prop where
  state : ∀ (p : Name) (st : PrefixState), w.ctl.prefixStates[p]? = some st →
    st.hasAccepted = true →
    st.acceptedMessage.pfx = p ∧ st.acceptedMessage.seq = st.highestAccepted ∧
      FirstAccepted w.log st.acceptedMessage
  bound : ∀ m, .accepted m ∈ w.log → ∃ st, w.ctl.prefixStates[m.pfx]? = some st ∧
    st.hasAccepted = true ∧ m.seq ≤ st.highestAccepted
  flows : ∀ e ∈ w.ctl.events, ∀ m, e.event = .attemptFlowMod m → FirstAccepted w.log m
  applied : ∀ m, .applied m ∈ w.log → FirstAccepted w.log m
  last : ∀ p, (appliedMessages w.log p).getLast?.map (fun m => (m.seq, m.outputPort)) =
    getHighestApplied w.ctl p
  increasing : ∀ p, (appliedMessages w.log p).Pairwise fun m m' => m.seq < m'.seq

/-- The invariant of the controller between its handlers. -/
structure FlowTableInv (cfg : FlowTableConfig) (w : FlowTableWorld σ) : Prop where
  queue : QueueInv w.clock w.ctl.events
  acks : ∀ e ∈ w.ctl.events, ∀ m, e.event = .deliverSyncAck m → Applied w.log m
  history : AcksAreTrue w.log
  kinds : ∀ m, .applied m ∈ w.log → m.type = .flowMod
  guard : cfg.generationGuardEnabled = true → GuardInv w

/-- Counters, draws, identifiers and the environment are not part of it. -/
theorem FlowTableInv.quiet (h : FlowTableInv cfg w) (hnow : w'.clock.now = w.clock.now)
    (huid : w.clock.uid ≤ w'.clock.uid) (hstates : w'.ctl.prefixStates = w.ctl.prefixStates)
    (hevents : w'.ctl.events = w.ctl.events) (hlog : w'.log = w.log) :
    FlowTableInv cfg w' where
  queue := by
    rw [hevents]
    exact h.queue.mono hnow huid
  acks := by
    rw [hevents, hlog]
    exact h.acks
  history := by
    rw [hlog]
    exact h.history
  kinds := by
    rw [hlog]
    exact h.kinds
  guard hon := by
    have hg := h.guard hon
    constructor
    · rw [hstates, hlog]
      exact hg.state
    · rw [hstates, hlog]
      exact hg.bound
    · rw [hevents, hlog]
      exact hg.flows
    · rw [hlog]
      exact hg.applied
    · rw [hlog]
      simp only [getHighestApplied, hstates]
      exact hg.last
    · rw [hlog]
      exact hg.increasing

theorem FlowTableInv.count (h : FlowTableInv cfg w) (c : FlowTableCounter) :
    FlowTableInv cfg (count c w) :=
  h.quiet rfl (Nat.le_refl _) rfl rfl rfl

theorem FlowTableInv.shouldDrop (h : FlowTableInv cfg w) (p : Name) :
    FlowTableInv cfg (shouldDrop cfg p w).2 :=
  h.quiet rfl (Nat.le_refl _) rfl rfl rfl

theorem FlowTableInv.sampleDelay (h : FlowTableInv cfg w) (p : Name) :
    FlowTableInv cfg (sampleDelay cfg p w).2 :=
  h.quiet rfl (Nat.le_refl _) rfl rfl rfl

/-- A scheduled event keeps the invariant if its message is in order. -/
theorem FlowTableInv.schedule (h : FlowTableInv cfg w) (delay : Nat)
    {event : FlowTableEvent} (hack : ∀ m, event = .deliverSyncAck m → Applied w.log m)
    (hflow : cfg.generationGuardEnabled = true → ∀ m, event = .attemptFlowMod m →
      FirstAccepted w.log m) :
    FlowTableInv cfg (schedule delay event w) where
  queue := h.queue.schedule delay event
  acks e he m hm := by
    rcases List.mem_append.mp he with he | he
    · exact h.acks e he m hm
    · rw [List.mem_singleton] at he
      rw [he] at hm
      exact hack m hm
  history := h.history
  kinds := h.kinds
  guard hon := { h.guard hon with
    flows := fun e he m hm => by
      rcases List.mem_append.mp he with he | he
      · exact (h.guard hon).flows e he m hm
      · rw [List.mem_singleton] at he
        rw [he] at hm
        exact hflow hon m hm }

/-! ## Acceptance -/

/-- `operator[]` may create the default state of a prefix. -/
theorem GuardInv.touch (h : GuardInv w) (p : Name) :
    GuardInv { w with ctl := { w.ctl with
      prefixStates := w.ctl.prefixStates.insert p (w.ctl.prefixStates[p]?.getD {}) } } := by
  refine { h with state := fun q st hq hacc => ?_, bound := fun m hm => ?_, last := fun q => ?_ }
  · by_cases hpq : p = q
    · subst hpq
      simp only [Std.TreeMap.getElem?_insert_self, Option.some.injEq] at hq
      cases hp : w.ctl.prefixStates[p]? with
      | none =>
          rw [hp] at hq
          subst hq
          cases hacc
      | some st' =>
          rw [hp] at hq
          subst hq
          exact h.state p st' hp hacc
    · rw [Std.TreeMap.getElem?_insert] at hq
      simp only [Std.LawfulEqOrd.compare_eq_iff_eq, hpq, if_false] at hq
      exact h.state q st hq hacc
  · obtain ⟨st, hst, hrest⟩ := h.bound m hm
    refine ⟨st, ?_, hrest⟩
    by_cases hp : p = m.pfx
    · simp [hp, hst]
    · simp [Std.TreeMap.getElem?_insert, hp, hst]
  · rw [h.last q]
    by_cases hpq : p = q
    · subst hpq
      cases hp : w.ctl.prefixStates[p]? with
      | none => simp [getHighestApplied, hp]
      | some st => simp [getHighestApplied, hp]
    · simp [getHighestApplied, Std.TreeMap.getElem?_insert, hpq]

/-- An accepted message that repeats the first one of its generation. -/
theorem GuardInv.accepted (h : GuardInv w) (hfirst : FirstAccepted (w.log ++ [.accepted m]) m)
    (hbound : ∃ st, w.ctl.prefixStates[m.pfx]? = some st ∧ st.hasAccepted = true ∧
      m.seq ≤ st.highestAccepted) :
    GuardInv { w with log := w.log ++ [.accepted m] } := by
  have hsame : ∀ p, appliedMessages (w.log ++ [.accepted m]) p = appliedMessages w.log p :=
    fun p => by simp [appliedMessages]
  constructor
  · intro p st hp hacc
    obtain ⟨hpfx, hseq, hst⟩ := h.state p st hp hacc
    exact ⟨hpfx, hseq, hst.append _⟩
  · intro m' hm'
    rcases List.mem_append.mp hm' with hm' | hm'
    · exact h.bound m' hm'
    · rw [List.mem_singleton, FlowTableObs.accepted.injEq] at hm'
      subst hm'
      exact hbound
  · exact fun e he m' hm' => (h.flows e he m' hm').append _
  · intro m' hm'
    rcases List.mem_append.mp hm' with hm' | hm'
    · exact (h.applied m' hm').append _
    · simp at hm'
  · intro p
    rw [hsame]
    exact h.last p
  · intro p
    rw [hsame]
    exact h.increasing p

/-- Accepting a message and scheduling its FlowMod. -/
theorem FlowTableInv.scheduleFlowMod (hw : FlowTableInv cfg w)
    {states : Std.TreeMap Name PrefixState}
    (hguard : cfg.generationGuardEnabled = true → FirstAccepted (w.log ++ [.accepted m]) m ∧
      GuardInv { w with
        log := w.log ++ [.accepted m], ctl := { w.ctl with prefixStates := states } }) :
    FlowTableInv cfg
      (scheduleFlowMod cfg m { w with ctl := { w.ctl with prefixStates := states } }) := by
  have haccepted : FlowTableInv cfg { w with
      log := w.log ++ [.accepted m], ctl := { w.ctl with prefixStates := states } } :=
    { queue := hw.queue
      acks := fun e he m' hm' => (hw.acks e he m' hm').append _
      history := hw.history.snoc fun t ack hack => by cases hack
      kinds := fun m' hm' => hw.kinds m' (by simpa using hm')
      guard := fun hon => (hguard hon).2 }
  refine (haccepted.sampleDelay _).schedule _ (fun m' hm' => by cases hm') fun hon m' hm' => ?_
  cases hm'
  exact (hguard hon).1

/-- A generation above the watermark was never accepted before. -/
theorem GuardInv.acceptedAt_eq_none (h : GuardInv w)
    (hnew : ∀ st, w.ctl.prefixStates[m.pfx]? = some st → st.hasAccepted = true →
      st.highestAccepted < m.seq) : acceptedAt w.log m.pfx m.seq = none := by
  refine acceptedAt_eq_none_of_not_mem fun m' hm' hp hs => ?_
  obtain ⟨st, hst, hacc, hle⟩ := h.bound m' hm'
  have hlt := hnew st (hp ▸ hst) hacc
  omega

theorem GuardInv.acceptNew (h : GuardInv w)
    (hnew : ∀ st, w.ctl.prefixStates[m.pfx]? = some st → st.hasAccepted = true →
      st.highestAccepted < m.seq) :
    FirstAccepted (w.log ++ [.accepted m]) m ∧ GuardInv { w with
      log := w.log ++ [.accepted m]
      ctl := { w.ctl with
        prefixStates := w.ctl.prefixStates.insert m.pfx
          (PrefixState.accept (w.ctl.prefixStates[m.pfx]?.getD {}) m) } } := by
  have hnone := h.acceptedAt_eq_none hnew
  have hfirst : FirstAccepted (w.log ++ [.accepted m]) m := by
    rw [FirstAccepted, acceptedAt_append, hnone, Option.none_or]
    simp [acceptedAt]
  have hsame : ∀ p, appliedMessages (w.log ++ [.accepted m]) p = appliedMessages w.log p :=
    fun p => by simp [appliedMessages]
  refine ⟨hfirst, ?_⟩
  constructor
  · intro p st hp hacc
    by_cases hpq : m.pfx = p
    · subst hpq
      rw [Std.TreeMap.getElem?_insert_self, Option.some.injEq] at hp
      subst hp
      exact ⟨rfl, rfl, hfirst⟩
    · rw [Std.TreeMap.getElem?_insert] at hp
      simp only [Std.LawfulEqOrd.compare_eq_iff_eq, hpq, if_false] at hp
      obtain ⟨hpfx, hseq, hst⟩ := h.state p st hp hacc
      exact ⟨hpfx, hseq, hst.append _⟩
  · intro m' hm'
    rcases List.mem_append.mp hm' with hm' | hm'
    · obtain ⟨st, hst, hacc, hle⟩ := h.bound m' hm'
      by_cases hpq : m.pfx = m'.pfx
      · refine ⟨PrefixState.accept (w.ctl.prefixStates[m.pfx]?.getD {}) m, ?_, rfl, ?_⟩
        · simp [hpq]
        · exact Nat.le_of_lt (Nat.lt_of_le_of_lt hle (hnew st (hpq ▸ hst) hacc))
      · exact ⟨st, by simp [Std.TreeMap.getElem?_insert, hpq, hst], hacc, hle⟩
    · rw [List.mem_singleton, FlowTableObs.accepted.injEq] at hm'
      subst hm'
      exact ⟨_, Std.TreeMap.getElem?_insert_self, rfl, Nat.le_refl _⟩
  · exact fun e he m' hm' => (h.flows e he m' hm').append _
  · intro m' hm'
    rcases List.mem_append.mp hm' with hm' | hm'
    · exact (h.applied m' hm').append _
    · simp at hm'
  · intro p
    rw [hsame, h.last p]
    by_cases hpq : m.pfx = p
    · subst hpq
      cases hp : w.ctl.prefixStates[m.pfx]? with
      | none => simp [getHighestApplied, hp, PrefixState.accept]
      | some st => simp [getHighestApplied, hp, PrefixState.accept]
    · simp [getHighestApplied, Std.TreeMap.getElem?_insert, hpq]
  · intro p
    rw [hsame]
    exact h.increasing p

/-! ## Acknowledgement -/

theorem GuardInv.acked (h : GuardInv w) (t : Nat) (ack : ControlMessage) :
    GuardInv { w with log := w.log ++ [.acked t ack] } := by
  have hsame : ∀ p, appliedMessages (w.log ++ [.acked t ack]) p = appliedMessages w.log p :=
    fun p => by simp [appliedMessages]
  constructor
  · intro p st hp hacc
    obtain ⟨hpfx, hseq, hst⟩ := h.state p st hp hacc
    exact ⟨hpfx, hseq, hst.append _⟩
  · intro m' hm'
    exact h.bound m' (by simpa using hm')
  · exact fun e he m' hm' => (h.flows e he m' hm').append _
  · exact fun m' hm' => (h.applied m' (by simpa using hm')).append _
  · intro p
    rw [hsame]
    exact h.last p
  · intro p
    rw [hsame]
    exact h.increasing p

/-- A SyncAck before the deadline for an applied payload may be handed over. -/
theorem FlowTableInv.acked (h : FlowTableInv cfg w) (happlied : Applied w.log m)
    (hlive : m.isExpiredAt w.clock.now = false) :
    FlowTableInv cfg { w with
      log := w.log ++ [.acked w.clock.now { m with type := .syncAck }] } where
  queue := h.queue
  acks e he m' hm' := (h.acks e he m' hm').append _
  history := by
    refine h.history.snoc fun t ack hack => ?_
    cases hack
    exact ⟨rfl, ControlMessage.isExpiredAt_eq_false_iff.mp hlive, happlied⟩
  kinds m' hm' := h.kinds m' (by simpa using hm')
  guard hon := (h.guard hon).acked _ _

/-- The history only grows, and without applications. -/
def Grows (w w' : FlowTableWorld σ) : Prop :=
  ∃ news, w'.log = w.log ++ news ∧ ∀ m, .applied m ∉ news

theorem Grows.of_log_eq (h : w'.log = w.log) : Grows w w' :=
  ⟨[], by simp [h], by simp⟩

theorem Grows.trans {w'' : FlowTableWorld σ} (h : Grows w w') (h' : Grows w' w'') :
    Grows w w'' := by
  obtain ⟨news, hlog, hnone⟩ := h
  obtain ⟨news', hlog', hnone'⟩ := h'
  refine ⟨news ++ news', by rw [hlog', hlog, List.append_assoc], fun m hm => ?_⟩
  rcases List.mem_append.mp hm with hm | hm
  · exact hnone m hm
  · exact hnone' m hm

theorem Grows.appliedMessages (h : Grows w w') (p : Name) :
    appliedMessages w'.log p = appliedMessages w.log p := by
  obtain ⟨news, hlog, hnone⟩ := h
  have hnil : Statim.appliedMessages news p = [] := by
    rw [List.eq_nil_iff_forall_not_mem]
    exact fun m hm => hnone m (mem_appliedMessages.mp hm).1
  rw [hlog, appliedMessages_append, hnil, List.append_nil]

theorem Grows.firstAccepted (h : Grows w w') (hm : FirstAccepted w.log m) :
    FirstAccepted w'.log m := by
  obtain ⟨news, hlog, -⟩ := h
  rw [hlog]
  exact hm.append news

/-- What a callback is trusted with. -/
structure Respects (cfg : FlowTableConfig) (w w' : FlowTableWorld σ) : Prop where
  inv : FlowTableInv cfg w → FlowTableInv cfg w'
  grows : Grows w w'

/-- The SyncAck callback keeps the invariant. -/
def SyncAckRespects (cfg : FlowTableConfig) (cbs : FlowTableCallbacks σ) : Prop :=
  ∀ f, cbs.syncAck = some f → ∀ m w, Respects cfg w (f m w)

theorem FlowTableInv.handOver (h : FlowTableInv cfg w) (hcb : SyncAckRespects cfg cbs)
    (happlied : Applied w.log m) (hlive : m.isExpiredAt w.clock.now = false) :
    FlowTableInv cfg (handOver cbs { m with type := .syncAck } w) := by
  unfold FlowTableController.handOver
  cases hsync : cbs.syncAck with
  | none => exact h
  | some f => exact (hcb f hsync _ _).inv (h.acked happlied hlive)

theorem grows_handOver (hcb : SyncAckRespects cfg cbs) (m : ControlMessage)
    (w : FlowTableWorld σ) : Grows w (handOver cbs m w) := by
  unfold FlowTableController.handOver
  cases hsync : cbs.syncAck with
  | none => exact Grows.of_log_eq rfl
  | some f => exact Grows.trans ⟨[.acked w.clock.now m], rfl, by simp⟩ (hcb f hsync _ _).grows

theorem FlowTableInv.deliverSyncAck (h : FlowTableInv cfg w) (hcb : SyncAckRespects cfg cbs)
    (happlied : Applied w.log m) : FlowTableInv cfg (deliverSyncAck cfg cbs m w) := by
  simp only [FlowTableController.deliverSyncAck]
  split
  · exact (h.count _).count _
  next hlive =>
    split
    · exact ((h.count _).shouldDrop _).count _
    · refine FlowTableInv.count ?_ _
      exact ((h.count _).shouldDrop _).handOver hcb happlied ((Bool.not_eq_true _).mp hlive)

theorem grows_deliverSyncAck (hcb : SyncAckRespects cfg cbs) (m : ControlMessage)
    (w : FlowTableWorld σ) : Grows w (deliverSyncAck cfg cbs m w) := by
  simp only [FlowTableController.deliverSyncAck]
  split
  · exact Grows.of_log_eq rfl
  · split
    · exact Grows.of_log_eq rfl
    · have hstart : Grows w (FlowTableController.shouldDrop cfg m.pfx
          (FlowTableController.count .syncAckAttempts w)).2 := Grows.of_log_eq rfl
      exact (hstart.trans (grows_handOver hcb _ _)).trans (Grows.of_log_eq rfl)

theorem FlowTableInv.sendSyncAck (h : FlowTableInv cfg w) (hcb : SyncAckRespects cfg cbs)
    (happlied : Applied w.log m) : FlowTableInv cfg (sendSyncAck cfg cbs m w) := by
  simp only [FlowTableController.sendSyncAck]
  split
  · exact (h.sampleDelay _).deliverSyncAck hcb happlied
  · refine (h.sampleDelay _).schedule _ ?_ ?_
    · rintro _ ⟨⟩
      exact happlied
    · rintro _ _ ⟨⟩

theorem grows_sendSyncAck (hcb : SyncAckRespects cfg cbs) (m : ControlMessage)
    (w : FlowTableWorld σ) : Grows w (sendSyncAck cfg cbs m w) := by
  simp only [FlowTableController.sendSyncAck]
  split
  · exact Grows.trans (Grows.of_log_eq rfl) (grows_deliverSyncAck hcb m _)
  · exact Grows.of_log_eq rfl

theorem FlowTableInv.scheduleSyncAck (h : FlowTableInv cfg w) (hcb : SyncAckRespects cfg cbs)
    (happlied : Applied w.log m) (replay : Bool) :
    FlowTableInv cfg (scheduleSyncAck cfg cbs m replay w) := by
  cases replay with
  | false => exact h.sendSyncAck hcb happlied
  | true => exact (h.count .idempotentAckReplays).sendSyncAck hcb happlied

theorem grows_scheduleSyncAck (hcb : SyncAckRespects cfg cbs) (m : ControlMessage)
    (replay : Bool) (w : FlowTableWorld σ) : Grows w (scheduleSyncAck cfg cbs m replay w) := by
  cases replay with
  | false => exact grows_sendSyncAck hcb m w
  | true =>
      exact (Grows.of_log_eq rfl).trans
        (grows_sendSyncAck hcb m (FlowTableController.count .idempotentAckReplays w))

/-! ## Submission -/

/-- A generation that the guard records as applied was applied with the payload
of every message that repeats its first PacketIn. -/
theorem GuardInv.applied_of_highestApplied (h : GuardInv w) (hfirst : FirstAccepted w.log m)
    {st : PrefixState} (hst : w.ctl.prefixStates[m.pfx]? = some st)
    (happlied : st.hasApplied = true) (hseq : st.highestApplied = m.seq) :
    ∃ a ∈ appliedMessages w.log m.pfx, a.payload = m.payload := by
  have hlast := h.last m.pfx
  simp only [getHighestApplied, hst, Option.bind_some, happlied, if_true] at hlast
  obtain ⟨a, ha, hpair⟩ := Option.map_eq_some_iff.mp hlast
  have hmem := List.mem_of_getLast? ha
  obtain ⟨hlog, hpfx⟩ := mem_appliedMessages.mp hmem
  have haseq : a.seq = m.seq := (congrArg Prod.fst hpair).trans hseq
  exact ⟨a, hmem, (h.applied a hlog).payload_eq hfirst hpfx haseq⟩

theorem FlowTableInv.touch (h : FlowTableInv cfg w) (p : Name) :
    FlowTableInv cfg { w with ctl := { w.ctl with
      prefixStates := w.ctl.prefixStates.insert p (w.ctl.prefixStates[p]?.getD {}) } } where
  queue := h.queue
  acks := h.acks
  history := h.history
  kinds := h.kinds
  guard hon := (h.guard hon).touch p

theorem FlowTableInv.applied_of_highestApplied (h : FlowTableInv cfg w)
    (hon : cfg.generationGuardEnabled = true) (hfirst : FirstAccepted w.log m)
    {st : PrefixState} (hst : w.ctl.prefixStates[m.pfx]? = some st)
    (happlied : st.hasApplied = true) (hseq : st.highestApplied = m.seq) :
    Applied w.log m := by
  obtain ⟨a, ha, hpayload⟩ :=
    (h.guard hon).applied_of_highestApplied hfirst hst happlied hseq
  have hlog := (mem_appliedMessages.mp ha).1
  exact ⟨a, hlog, h.kinds a hlog, hpayload⟩

theorem FlowTableInv.acceptControl (h : FlowTableInv cfg w) (hcb : SyncAckRespects cfg cbs)
    (m : ControlMessage) : FlowTableInv cfg (acceptControl cfg cbs m w) := by
  simp only [FlowTableController.acceptControl]
  have hcounted := h.count .packetInsDelivered
  have htouched := hcounted.touch m.pfx
  split
  · exact hcounted.count _
  split
  swap
  next hoff => exact hcounted.scheduleFlowMod fun hon => absurd hon hoff
  next hon =>
    generalize hstate : (FlowTableController.count .packetInsDelivered
      w).ctl.prefixStates[m.pfx]?.getD {} = st at htouched ⊢
    have hst : (w.ctl.prefixStates.insert m.pfx st)[m.pfx]? = some st :=
      Std.TreeMap.getElem?_insert_self
    split
    · exact htouched.count _
    next hfresh =>
      split
      next hdup =>
        obtain ⟨hpfx, hseq, hfirst⟩ := (htouched.guard hon).state m.pfx st hst hdup.1
        split
        · exact (htouched.count _).count _
        next hsame =>
          have hpayload : m.payload = st.acceptedMessage.payload := by
            rw [← ControlMessage.sameUpdate_eq_true_iff]
            simpa using hsame
          have hfirst' : FirstAccepted w.log m := hfirst.congr hpayload
          split
          next happlied =>
            refine (htouched.count _).scheduleSyncAck hcb ?_ true
            exact htouched.applied_of_highestApplied hon hfirst' hst happlied.1 happlied.2
          · refine (htouched.count _).scheduleFlowMod fun _ => ⟨hfirst'.append _, ?_⟩
            exact GuardInv.accepted ((htouched.count _).guard hon) (hfirst'.append _)
              ⟨st, hst, hdup.1, Nat.le_of_eq hdup.2⟩
      next hnew =>
        refine htouched.scheduleFlowMod fun _ => ?_
        have haccept := (htouched.guard hon).acceptNew (m := m) fun st' hst' hacc => by
          obtain rfl : st = st' := Option.some.inj (hst.symm.trans hst')
          have hle : ¬m.seq < st.highestAccepted := fun hlt => hfresh ⟨hacc, hlt⟩
          have hne : ¬m.seq = st.highestAccepted := fun heq => hnew ⟨hacc, heq⟩
          omega
        have hgetD : ((w.ctl.prefixStates.insert m.pfx st)[m.pfx]?.getD {}) = st := by
          rw [hst, Option.getD_some]
        rw [show (FlowTableController.count .packetInsDelivered w).ctl.prefixStates =
          w.ctl.prefixStates from rfl] at haccept
        rw [hgetD] at haccept
        exact haccept

theorem grows_acceptControl (hcb : SyncAckRespects cfg cbs) (m : ControlMessage)
    (w : FlowTableWorld σ) : Grows w (acceptControl cfg cbs m w) := by
  simp only [FlowTableController.acceptControl]
  split
  · exact Grows.of_log_eq rfl
  split
  swap
  · exact ⟨[.accepted m], rfl, by simp⟩
  split
  · exact Grows.of_log_eq rfl
  split
  · split
    · exact Grows.of_log_eq rfl
    · split
      · exact Grows.trans (Grows.of_log_eq rfl) (grows_scheduleSyncAck hcb m true _)
      · exact ⟨[.accepted m], rfl, by simp⟩
  · exact ⟨[.accepted m], rfl, by simp⟩

theorem FlowTableInv.submitFlowUpdate (h : FlowTableInv cfg w) (hcb : SyncAckRespects cfg cbs)
    (m : ControlMessage) : FlowTableInv cfg (submitFlowUpdate cfg cbs m w) := by
  simp only [FlowTableController.submitFlowUpdate]
  have hcounted := (h.count .packetIns).shouldDrop m.pfx
  split
  · exact hcounted.count _
  · split
    · exact (hcounted.sampleDelay _).acceptControl hcb m
    · refine (hcounted.sampleDelay _).schedule _ ?_ ?_
      · rintro _ ⟨⟩
      · rintro _ _ ⟨⟩

theorem grows_submitFlowUpdate (hcb : SyncAckRespects cfg cbs) (m : ControlMessage)
    (w : FlowTableWorld σ) : Grows w (submitFlowUpdate cfg cbs m w) := by
  simp only [FlowTableController.submitFlowUpdate]
  split
  · exact Grows.of_log_eq rfl
  · split
    · exact Grows.trans (Grows.of_log_eq rfl) (grows_acceptControl hcb m _)
    · exact Grows.of_log_eq rfl

/-! ## Callbacks -/

/-- The same callbacks without their effects. -/
def silent (cbs : FlowTableCallbacks σ) : FlowTableCallbacks σ where
  apply := none
  syncAck := cbs.syncAck.map fun _ _ w => w

/-- One call that a callback makes before it returns: it submits a PacketIn, or
acts outside the controller. -/
inductive NestedCall (cfg : FlowTableConfig) (cbs : FlowTableCallbacks σ) :
    FlowTableWorld σ → FlowTableWorld σ → Prop
  | submit (m : ControlMessage) (w : FlowTableWorld σ) :
      NestedCall cfg cbs w (FlowTableController.submitFlowUpdate cfg (silent cbs) m w)
  | other {w : FlowTableWorld σ} {uid : Nat} (huid : w.clock.uid ≤ uid) (env : σ) :
      NestedCall cfg cbs w { w with clock := { w.clock with uid := uid }, env := env }

/-- Callbacks that use the controller through its interface only. -/
structure Confined (cfg : FlowTableConfig) (cbs : FlowTableCallbacks σ) : Prop where
  apply : ∀ f, cbs.apply = some f → ∀ m w,
    Relation.ReflTransGen (NestedCall cfg cbs) w (f m w).2
  syncAck : ∀ f, cbs.syncAck = some f → ∀ m w,
    Relation.ReflTransGen (NestedCall cfg cbs) w (f m w)

theorem syncAckRespects_silent : SyncAckRespects cfg (silent cbs) := by
  intro f hf m w
  obtain ⟨g, -, rfl⟩ := Option.map_eq_some_iff.mp hf
  exact ⟨fun h => h, Grows.of_log_eq rfl⟩

theorem NestedCall.respects (h : NestedCall cfg cbs w w') : Respects cfg w w' := by
  cases h with
  | submit m =>
      exact ⟨fun h => h.submitFlowUpdate syncAckRespects_silent m,
        grows_submitFlowUpdate syncAckRespects_silent m w⟩
  | other huid env =>
      exact ⟨fun h => h.quiet rfl huid rfl rfl rfl, Grows.of_log_eq rfl⟩

theorem respects_of_nestedCalls (h : Relation.ReflTransGen (NestedCall cfg cbs) w w') :
    Respects cfg w w' := by
  induction h with
  | refl => exact ⟨fun h => h, Grows.of_log_eq rfl⟩
  | tail _ hcall ih =>
      exact ⟨fun h => hcall.respects.inv (ih.inv h), ih.grows.trans hcall.respects.grows⟩

theorem Confined.syncAckRespects (h : Confined cfg cbs) : SyncAckRespects cfg cbs :=
  fun f hf m w => respects_of_nestedCalls (h.syncAck f hf m w)

/-! ## Application -/

/-- No applied generation is above the accepted one. -/
theorem GuardInv.seq_le_highestAccepted (h : GuardInv w) (ha : a ∈ appliedMessages w.log p)
    {st : PrefixState} (hst : w.ctl.prefixStates[p]? = some st) :
    a.seq ≤ st.highestAccepted := by
  obtain ⟨hlog, hpfx⟩ := mem_appliedMessages.mp ha
  obtain ⟨x, hx, -⟩ := Option.map_eq_some_iff.mp (h.applied a hlog)
  obtain ⟨hxlog, hxpfx, hxseq⟩ := acceptedAt_eq_some hx
  obtain ⟨st', hst', -, hle⟩ := h.bound x hxlog
  rw [hxpfx, hpfx, hst] at hst'
  obtain rfl : st = st' := Option.some.inj hst'
  omega

/-- Every applied generation is at most the last one. -/
theorem GuardInv.seq_le_highestApplied (h : GuardInv w) (ha : a ∈ appliedMessages w.log p) :
    ∃ st, w.ctl.prefixStates[p]? = some st ∧ st.hasApplied = true ∧
      a.seq ≤ st.highestApplied := by
  obtain ⟨last, hlast⟩ : ∃ last, (appliedMessages w.log p).getLast? = some last := by
    cases hlast : (appliedMessages w.log p).getLast? with
    | none =>
        rw [List.getLast?_eq_none_iff] at hlast
        rw [hlast] at ha
        cases ha
    | some last => exact ⟨last, rfl⟩
  have hstate := h.last p
  rw [hlast, Option.map_some] at hstate
  obtain ⟨st, hst, hpair⟩ := Option.bind_eq_some_iff.mp hstate.symm
  obtain ⟨happlied, hpair⟩ := Option.ite_none_right_eq_some.mp hpair
  have hseq : st.highestApplied = last.seq := congrArg Prod.fst (Option.some.inj hpair)
  refine ⟨st, hst, happlied, ?_⟩
  obtain ⟨init, hsplit⟩ := List.getLast?_eq_some_iff.mp hlast
  have hinc := h.increasing p
  rw [hsplit] at ha hinc
  rcases List.mem_append.mp ha with ha | ha
  · have hlt := (List.pairwise_append.mp hinc).2.2 a ha last List.mem_cons_self
    omega
  · rw [List.mem_singleton.mp ha]
    omega

/-- A generation that is neither stale nor applied is above every applied one. -/
theorem GuardInv.lt_of_fresh (h : GuardInv w) (hstale : isStaleFlowMod m w.ctl = false)
    (happlied : isAppliedFlowMod m w.ctl = false) (ha : a ∈ appliedMessages w.log m.pfx) :
    a.seq < m.seq := by
  obtain ⟨st, hst, hhas, hle⟩ := h.seq_le_highestApplied ha
  simp only [isStaleFlowMod, hst, Bool.or_eq_false_iff, decide_eq_false_iff_not] at hstale
  simp only [isAppliedFlowMod, hst, hhas, Bool.true_and, decide_eq_false_iff_not] at happlied
  have hacc := h.seq_le_highestAccepted ha hst
  -- if `a` had the generation of `m`, the last applied one would have it too
  obtain ⟨last, hlast, hpair⟩ : ∃ last ∈ appliedMessages w.log m.pfx,
      last.seq = st.highestApplied := by
    have hstate := h.last m.pfx
    simp only [getHighestApplied, hst, Option.bind_some, hhas, if_true] at hstate
    obtain ⟨last, hlast, hpair⟩ := Option.map_eq_some_iff.mp hstate
    exact ⟨last, List.mem_of_getLast? hlast, congrArg Prod.fst hpair⟩
  have hbelow := h.seq_le_highestAccepted hlast hst
  omega

theorem GuardInv.apply (h : GuardInv w) (hfirst : FirstAccepted w.log m)
    (hnew : ∀ a ∈ appliedMessages w.log m.pfx, a.seq < m.seq) :
    GuardInv { w with
      log := w.log ++ [.applied { m with type := .flowMod }]
      ctl := { w.ctl with
        prefixStates := w.ctl.prefixStates.insert m.pfx
          (PrefixState.apply (w.ctl.prefixStates[m.pfx]?.getD {}) m) } } := by
  constructor
  · intro p st hp hacc
    by_cases hpq : m.pfx = p
    · subst hpq
      rw [Std.TreeMap.getElem?_insert_self, Option.some.injEq] at hp
      subst hp
      cases hst : w.ctl.prefixStates[m.pfx]? with
      | none =>
          rw [hst] at hacc
          cases hacc
      | some st =>
          rw [hst] at hacc
          obtain ⟨hpfx, hseq, hfirst'⟩ := h.state m.pfx st hst hacc
          exact ⟨hpfx, hseq, hfirst'.append _⟩
    · rw [Std.TreeMap.getElem?_insert] at hp
      simp only [Std.LawfulEqOrd.compare_eq_iff_eq, hpq, if_false] at hp
      obtain ⟨hpfx, hseq, hst⟩ := h.state p st hp hacc
      exact ⟨hpfx, hseq, hst.append _⟩
  · intro m' hm'
    obtain ⟨st, hst, hacc, hle⟩ := h.bound m' (by simpa using hm')
    by_cases hpq : m.pfx = m'.pfx
    · exact ⟨st.apply m, by simp [hpq, hst], hacc, hle⟩
    · exact ⟨st, by simp [Std.TreeMap.getElem?_insert, hpq, hst], hacc, hle⟩
  · exact fun e he m' hm' => (h.flows e he m' hm').append _
  · intro m' hm'
    rcases List.mem_append.mp hm' with hm' | hm'
    · exact (h.applied m' hm').append _
    · rw [List.mem_singleton, FlowTableObs.applied.injEq] at hm'
      subst hm'
      exact (hfirst.congr rfl).append _
  · intro p
    rw [appliedMessages_append]
    by_cases hpq : m.pfx = p
    · simp [appliedMessages, getHighestApplied, hpq, PrefixState.apply]
    · have hold := h.last p
      simpa [appliedMessages, getHighestApplied, hpq, Std.TreeMap.getElem?_insert] using hold
  · intro p
    rw [appliedMessages_append, List.pairwise_append]
    refine ⟨h.increasing p, ?_, ?_⟩
    · by_cases hpq : m.pfx = p <;> simp [appliedMessages, hpq]
    · intro x hx y hy
      obtain ⟨hy, hpfx⟩ := mem_appliedMessages.mp hy
      rw [List.mem_singleton, FlowTableObs.applied.injEq] at hy
      subst hy
      exact hnew x (hpfx ▸ hx)

end FlowTableController

end Statim
