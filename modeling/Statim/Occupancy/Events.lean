import Mathlib.Algebra.Order.Field.Basic
import Mathlib.Tactic.Linarith
import Mathlib.Tactic.NormNum
import Statim.Control.LeaseFree
import Statim.Control.Lossless
import Statim.Occupancy.Experiment

/-!
# The two events of the experiment

What an arrival does to the world, and what the event does that applies a FlowMod and
completes its prefix.  Neither raises an exception, as long as the experiment and the
controllers agree on which prefixes are resident.
-/

namespace Statim.Occupancy

open Support

/-! ## Generated prefixes -/

theorem bigEndian_nonNegativeInteger (number : UInt64) :
    Component.bigEndian (Component.nonNegativeInteger number) = number.toNat := by
  have hlt := UInt64.toNat_lt number
  unfold Component.nonNegativeInteger
  split_ifs
  · exact Component.bigEndian_octetsOf (by omega)
  · exact Component.bigEndian_octetsOf (by omega)
  · exact Component.bigEndian_octetsOf (by omega)
  · exact Component.bigEndian_octetsOf (by omega)

theorem generatedPrefix_inj {id id' : UInt64} :
    generatedPrefix id = generatedPrefix id' ↔ id = id' := by
  refine ⟨fun h => ?_, fun h => h ▸ rfl⟩
  have hlast := List.append_cancel_left h
  rw [List.singleton_inj, Component.generic, Component.generic, Component.mk.injEq] at hlast
  have hnumber := congrArg Component.bigEndian hlast.2
  rwa [bigEndian_nonNegativeInteger, bigEndian_nonNegativeInteger, UInt64.toNat_inj] at hnumber

/-! ## Seconds -/

theorem seconds_le_iff {s t : Nat} : seconds s ≤ seconds t ↔ s ≤ t := by
  rw [seconds, seconds, div_le_div_iff_of_pos_right (by norm_num), Nat.cast_le]

theorem seconds_lt_iff {s t : Nat} : seconds s < seconds t ↔ s < t := by
  rw [seconds, seconds, div_lt_div_iff_of_pos_right (by norm_num), Nat.cast_lt]

theorem seconds_add (s t : Nat) : seconds (s + t) = seconds s + seconds t := by
  rw [seconds, seconds, seconds, Nat.cast_add, add_div]

theorem seconds_nonneg (t : Nat) : 0 ≤ seconds t := div_nonneg (Nat.cast_nonneg t) (by norm_num)

/-! ## Settings -/

variable {stdHash : Bytes → Nat} {tc : Nat} {w w' : ExperimentWorld}

theorem plain_temporaryConfig : LocalRouteController.Plain temporaryConfig := ⟨rfl, rfl, rfl⟩

theorem lossless_centralConfig (tc : Nat) :
    FlowTableController.Lossless tc (centralConfig tc) :=
  ⟨rfl, fun _ _ => rfl, fun _ _ => rfl⟩

/-- The local controller of the experiment runs without leases. -/
abbrev LeaseFree (tc : Nat) (w : ExperimentWorld) : Prop :=
  LocalRouteController.LeaseFree temporaryConfig (temporaryCallbacks tc) w

theorem settle_eq_ok (h : w.env.members.thrown = none) : settle w = .ok w := by
  rw [settle, h]

theorem accountUntil_eq_ok {now : ℚ} (h : w.env.members.lastTransition ≤ now) :
    accountUntil now w = .ok (update (accounted now) w) := by
  rw [accountUntil, if_neg]
  have hpos : (0 : ℚ) < 1 / 10 ^ 12 := by norm_num
  linarith

/-- What both events rely on: the experiment accounts for the prefixes of the temporary
FIB, no exception is pending, and time points have not run out. -/
structure Ready (tc : Nat) (w : ExperimentWorld) : Prop where
  leaseFree : LeaseFree tc w
  thrown : w.env.members.thrown = none
  transition : w.env.members.lastTransition ≤ seconds w.clock.now
  now : (w.clock.now : Int) < timePointMax
  size : w.ctl.seqMap.size = w.env.members.lastObservedSize

/-- Accounting up to now keeps both events going. -/
theorem Ready.account (h : Ready tc w) : Ready tc (update (accounted (seconds w.clock.now)) w) where
  leaseFree := h.leaseFree.elapse plain_temporaryConfig rfl rfl (Nat.le_refl _)
  thrown := h.thrown
  transition := le_refl _
  now := h.now
  size := h.size

theorem Ready.verifyRealSize_eq_ok (h : Ready tc w) (context : String) :
    verifyRealSize context w = .ok () := by
  rw [verifyRealSize, require_eq_ok, decide_eq_true_iff]
  exact h.size

/-! ## Requests -/

/-- The request callback submits the update. -/
structure Requests (tc : Nat) (m : ControlMessage) (w w' : ExperimentWorld) : Prop where
  clock : w'.clock = w.clock.next
  ctl : w'.ctl = w.ctl
  log : w'.log = w.log
  members : w'.env.members = { w.env.members with
    controlRequestsObserved := w.env.members.controlRequestsObserved + 1 }
  events : w'.env.central.events =
    w.env.central.events ++ [w.clock.schedule tc (.attemptFlowMod m)]
  draws : ∀ p, w'.env.central.draws p =
    if p = m.pfx then w.env.central.draws p + 3 else w.env.central.draws p
  packetIns : w'.env.central.counters .packetIns = w.env.central.counters .packetIns + 1
  flowModsApplied :
    w'.env.central.counters .flowModsApplied = w.env.central.counters .flowModsApplied
  syncAcksDropped :
    w'.env.central.counters .syncAcksDropped = w.env.central.counters .syncAcksDropped

theorem requests_onRequest {m : ControlMessage} (htype : m.type = .packetIn)
    (hexpiry : m.routeExpiry = 0) (hdraws : w.env.central.draws m.pfx % 6 = 0) :
    Requests tc m w (onRequest tc m w) := by
  obtain ⟨v, hv⟩ : ∃ v, v = update (fun x => { x with
      controlRequestsObserved := x.controlRequestsObserved + 1 }) w := ⟨_, rfl⟩
  have hsubmits : FlowTableController.Submits tc m (toCentral v)
      (FlowTableController.submitFlowUpdate (centralConfig tc) centralCallbacks m
        (toCentral v)) :=
    FlowTableController.submits_submitFlowUpdate (lossless_centralConfig tc) hexpiry
      (by rw [hv]; exact hdraws)
  rw [onRequest, if_neg (by rw [htype]; decide), ← hv]
  subst hv
  exact
    { clock := hsubmits.clock
      ctl := congrArg CentralEnv.ctl hsubmits.env
      log := congrArg CentralEnv.log hsubmits.env
      members := congrArg CentralEnv.members hsubmits.env
      events := hsubmits.events
      draws := hsubmits.draws
      packetIns := hsubmits.packetIns
      flowModsApplied := hsubmits.flowModsApplied
      syncAcksDropped := hsubmits.syncAcksDropped }

/-! ## Arrivals -/

/-- The update of an arrival. -/
def admission (stdHash : Bytes → Nat) (x : UInt64 × Nat) : Admission where
  pfx := generatedPrefix x.1
  nameHashes := PacketHeader.hashesOf stdHash (generatedPrefix x.1)
  prefixLen := min (generatedPrefix x.1).length nameHashCount
  port := x.1.toNat % 32 + 1
  seq := (x.1 + 1).toNat
  lifetime := 0
  time := x.2
  origin := 0

/-- What an arrival does to the two controllers. -/
structure Submission (stdHash : Bytes → Nat) (tc : Nat) (x : UInt64 × Nat)
    (w w' : ExperimentWorld) : Prop where
  clock : w'.clock = w.clock.next
  leaseFree : LeaseFree tc w'
  seqMap : w'.ctl.seqMap = w.ctl.seqMap.insert (generatedPrefix x.1) (x.1 + 1).toNat
  counters : w'.ctl.counters = { w.ctl.counters with
    tempUpdates := w.ctl.counters.tempUpdates + 1
    controlPackets := w.ctl.counters.controlPackets + 1 }
  admissions : ∀ q, q ≠ generatedPrefix x.1 → admissions w'.log q = admissions w.log q
  events : w'.env.central.events = w.env.central.events ++
    [w.clock.schedule tc (.attemptFlowMod (admission stdHash x).packetIn)]
  draws : ∀ p, w'.env.central.draws p =
    if p = generatedPrefix x.1 then w.env.central.draws p + 3 else w.env.central.draws p
  packetIns : w'.env.central.counters .packetIns = w.env.central.counters .packetIns + 1
  flowModsApplied :
    w'.env.central.counters .flowModsApplied = w.env.central.counters .flowModsApplied
  syncAcksDropped :
    w'.env.central.counters .syncAcksDropped = w.env.central.counters .syncAcksDropped

/-- What an accepted trace update does. -/
structure Accepts (stdHash : Bytes → Nat) (tc : Nat) (x : UInt64 × Nat)
    (w w' : ExperimentWorld) : Prop extends Submission stdHash tc x w w' where
  members : w'.env.members = { w.env.members with
    controlRequestsObserved := w.env.members.controlRequestsObserved + 1
    traceUpdatesAccepted := w.env.members.traceUpdatesAccepted + 1 }

/-- The trace update of a new prefix is accepted. -/
theorem accepts_applyTraceUpdate (stdHash : Bytes → Nat) (hfree : LeaseFree tc w)
    (hthrown : w.env.members.thrown = none) {x : UInt64 × Nat}
    (hnow : w.clock.now = x.2) (hvacant : w.ctl.seqMap[generatedPrefix x.1]? = none)
    (hunseen : admissions w.log (generatedPrefix x.1) = [])
    (hdraws : w.env.central.draws (generatedPrefix x.1) = 0) :
    ∃ w', applyTraceUpdate stdHash tc (generatedPrefix x.1) (x.1.toNat % 32 + 1)
        (x.1 + 1).toNat 0 w = .ok (true, w') ∧ Accepts stdHash tc x w w' := by
  obtain ⟨w₁, hadmits, hfree₁, happly⟩ := hfree.applyTraceUpdate plain_temporaryConfig
    (show (temporaryCallbacks tc).request = some (onRequest tc) from rfl) hvacant
    (PacketHeader.hashesOf stdHash (generatedPrefix x.1))
    (min (generatedPrefix x.1).length nameHashCount) (x.1.toNat % 32 + 1) (x.1 + 1).toNat
  have hcandidate : LocalRouteController.candidate temporaryConfig (generatedPrefix x.1)
      (PacketHeader.hashesOf stdHash (generatedPrefix x.1))
      (min (generatedPrefix x.1).length nameHashCount) (x.1.toNat % 32 + 1) (x.1 + 1).toNat 0 w =
      admission stdHash x := by
    simp only [LocalRouteController.candidate, admission, hunseen, List.length_nil, hnow]
    rfl
  rw [hcandidate] at hadmits happly
  have hdraws₁ : w₁.env.central.draws (generatedPrefix x.1) % 6 = 0 := by
    rw [hadmits.env, hdraws]
  obtain ⟨w₂, hw₂⟩ : ∃ w₂, w₂ = onRequest tc (admission stdHash x).packetIn w₁ := ⟨_, rfl⟩
  have hrequests : Requests tc (admission stdHash x).packetIn w₁ w₂ :=
    hw₂ ▸ requests_onRequest rfl rfl hdraws₁
  have hmembers : w₂.env.members = { w.env.members with
      controlRequestsObserved := w.env.members.controlRequestsObserved + 1 } := by
    rw [hrequests.members, hadmits.env]
  have hfree₂ : LeaseFree tc w₂ := by
    refine hfree₁.elapse plain_temporaryConfig hrequests.ctl hrequests.log ?_
    rw [hrequests.clock, Clock.next_now]
  have hsettle : settle w₂ = .ok w₂ := settle_eq_ok (by rw [hmembers]; exact hthrown)
  refine ⟨update (fun x => { x with traceUpdatesAccepted := x.traceUpdatesAccepted + 1 }) w₂,
    ?_, ?_⟩
  · rw [applyTraceUpdate, happly, ← hw₂]
    simp only [bind, Except.bind, hsettle]
    rfl
  · have hclock : w₂.clock = w.clock.next := by rw [hrequests.clock, hadmits.clock]
    have hadmissions : ∀ q, q ≠ generatedPrefix x.1 → admissions w₂.log q = admissions w.log q := by
      intro q hq
      have hne : (admission stdHash x).pfx ≠ q := Ne.symm hq
      rw [hrequests.log, hadmits.log, admissions_append, admissions_append]
      simp [admissions, hne]
    have hevents := hrequests.events
    have hdraws₂ := hrequests.draws
    have hpacketIns := hrequests.packetIns
    have happlied := hrequests.flowModsApplied
    have hdropped := hrequests.syncAcksDropped
    rw [hadmits.env] at hevents hdraws₂ hpacketIns happlied hdropped
    rw [hadmits.clock] at hevents
    exact
      { clock := hclock
        leaseFree := hfree₂.elapse plain_temporaryConfig rfl rfl (Nat.le_refl _)
        seqMap := (congrArg LocalRouteController.seqMap hrequests.ctl).trans hadmits.seqMap
        counters := (congrArg LocalRouteController.counters hrequests.ctl).trans hadmits.counters
        admissions := hadmissions
        events := hevents
        draws := hdraws₂
        packetIns := hpacketIns
        flowModsApplied := happlied
        syncAcksDropped := hdropped
        members := by
          show { w₂.env.members with
            traceUpdatesAccepted := w₂.env.members.traceUpdatesAccepted + 1 } = _
          rw [hmembers] }

/-- What an arrival does. -/
structure Arrives (stdHash : Bytes → Nat) (tc : Nat) (x : UInt64 × Nat)
    (w w' : ExperimentWorld) : Prop extends Submission stdHash tc x w w' where
  members : w'.env.members = { accounted (seconds w.clock.now) w.env.members with
    controlRequestsObserved := w.env.members.controlRequestsObserved + 1
    traceUpdatesAccepted := w.env.members.traceUpdatesAccepted + 1
    insertLookupChecks := w.env.members.insertLookupChecks + 1
    arrivals := w.env.members.arrivals.insert (generatedPrefix x.1) (x.1, seconds w.clock.now)
    lastObservedSize := w.env.members.lastObservedSize + 1
    highWater := max w.env.members.highWater (w.env.members.lastObservedSize + 1) }

/-- A new prefix arrives without an exception. -/
theorem arrives_arrive (h : Ready tc w) {x : UInt64 × Nat} (hnow : w.clock.now = x.2)
    (hvacant : w.ctl.seqMap[generatedPrefix x.1]? = none)
    (hnew : w.env.members.arrivals[generatedPrefix x.1]? = none)
    (hunseen : admissions w.log (generatedPrefix x.1) = [])
    (hdraws : w.env.central.draws (generatedPrefix x.1) = 0) :
    ∃ w', arrive stdHash tc x.1 w = .ok w' ∧ Arrives stdHash tc x w w' := by
  obtain ⟨w₁, hw₁⟩ : ∃ w₁, w₁ = update (accounted (seconds w.clock.now)) w := ⟨_, rfl⟩
  have haccount : accountUntil (seconds w.clock.now) w = .ok w₁ :=
    hw₁ ▸ accountUntil_eq_ok h.transition
  have hready : Ready tc w₁ := hw₁ ▸ h.account
  have hsize₁ : verifyRealSize "before arrival" w₁ = .ok () := hready.verifyRealSize_eq_ok _
  have hcontains : (!w₁.env.members.arrivals.contains (generatedPrefix x.1)) = true := by
    rw [hw₁, Bool.not_eq_true', Std.TreeMap.contains_eq_isSome_getElem?]
    show (w.env.members.arrivals[generatedPrefix x.1]?).isSome = false
    rw [hnew]
    rfl
  obtain ⟨w₂, happlied, haccepts⟩ := accepts_applyTraceUpdate stdHash hready.leaseFree
    hready.thrown (by rw [hw₁]; exact hnow) (by rw [hw₁]; exact hvacant)
    (by rw [hw₁]; exact hunseen) (by rw [hw₁]; exact hdraws)
  have hfound : w₂.ctl.seqMap[generatedPrefix x.1]? = some (x.1 + 1).toNat := by
    rw [haccepts.seqMap, Std.TreeMap.getElem?_insert_self]
  have hnow₂ : (w₂.clock.now : Int) < timePointMax := by
    rw [haccepts.clock]
    exact hready.now
  have hsize₂ : w₂.ctl.fibSize = w₁.ctl.fibSize + 1 := by
    rw [LocalRouteController.fibSize, haccepts.seqMap, Std.TreeMap.size_insert,
      Std.TreeMap.contains_eq_isSome_getElem?, hw₁]
    show (if (w.ctl.seqMap[generatedPrefix x.1]?).isSome then _ else _) = _
    rw [hvacant]
    rfl
  have hexact := haccepts.leaseFree.findExact_isSome hnow₂ hfound
  obtain ⟨w₃, hw₃⟩ : ∃ w₃, w₃ = (LocalRouteController.findExact (generatedPrefix x.1) w₂).2 :=
    ⟨_, rfl⟩
  have hfree₃ : LeaseFree tc w₃ := hw₃ ▸ haccepts.leaseFree.findExact _
  have hlongest : (LocalRouteController.findLongestPrefix (generatedPrefix x.1 ++ [probe])
      w₃).1.isSome = true := by
    refine hfree₃.findLongestPrefix_isSome ?_ ?_ probe (s := (x.1 + 1).toNat)
    · rw [hw₃]
      exact hnow₂
    · rw [hw₃]
      exact hfound
  have hobserved : w₁.ctl.fibSize + 1 = w.env.members.lastObservedSize + 1 := by
    rw [← h.size, hw₁]
    rfl
  have hfree₄ := hfree₃.findLongestPrefix (generatedPrefix x.1 ++ [probe])
  refine ⟨update (fun y => { y with
      insertLookupChecks := y.insertLookupChecks + 1
      arrivals := y.arrivals.insert (generatedPrefix x.1) (x.1, seconds w.clock.now)
      lastObservedSize := w₂.ctl.fibSize
      highWater := max y.highWater w₂.ctl.fibSize })
      (LocalRouteController.findLongestPrefix (generatedPrefix x.1 ++ [probe]) w₃).2, ?_, ?_⟩
  · simp only [arrive, haccount, bind, Except.bind, hsize₁, require, hcontains, happlied, hsize₂,
      hexact, ← hw₃, hlongest, if_true, decide_true]
    rfl
  · rw [hsize₂, hobserved]
    subst hw₃ hw₁
    exact
      { haccepts with
        leaseFree := hfree₄.elapse plain_temporaryConfig rfl rfl (Nat.le_refl _)
        members := by
          show { w₂.env.members with
            insertLookupChecks := w₂.env.members.insertLookupChecks + 1
            arrivals := w₂.env.members.arrivals.insert (generatedPrefix x.1)
              (x.1, seconds w.clock.now)
            lastObservedSize := w.env.members.lastObservedSize + 1
            highWater := max w₂.env.members.highWater
              (w.env.members.lastObservedSize + 1) } = _
          rw [haccepts.members]
          rfl }

/-! ## Completions -/

/-- What the response to a resident prefix does. -/
structure Responds (tc : Nat) (pfx : Name) (w w' : ExperimentWorld) : Prop where
  clock : w'.clock = w.clock
  env : w'.env = { w.env with members := { w.env.members with
    syncCompleteCallbacks := w.env.members.syncCompleteCallbacks + 1 } }
  leaseFree : LeaseFree tc w'
  seqMap : w'.ctl.seqMap = w.ctl.seqMap.erase pfx
  counters : w'.ctl.counters = { w.ctl.counters with
    syncCompletions := w.ctl.counters.syncCompletions + 1 }
  admissions : ∀ q, admissions w'.log q = admissions w.log q

/-- The response to a resident prefix is accepted, and its callback finds the prefix gone. -/
theorem responds_handleControlResponse (hfree : LeaseFree tc w)
    (hthrown : w.env.members.thrown = none) {m : ControlMessage} (htype : m.type = .syncAck)
    (hexpiry : m.routeExpiry = 0) (hresident : w.ctl.seqMap[m.pfx]? = some m.seq) :
    ∃ w', LocalRouteController.handleControlResponse temporaryConfig responseCallbacks m w =
        (true, w') ∧ settle w' = .ok w' ∧ Responds tc m.pfx w w' := by
  obtain ⟨w₁, hretires, hfree₁, hresponse⟩ := hfree.handleControlResponse plain_temporaryConfig
    (show responseCallbacks.complete = some onSyncComplete from rfl) htype hexpiry hresident
  have hgone : w₁.ctl.seqMap[m.pfx]? = none := by
    rw [hretires.seqMap, Std.TreeMap.getElem?_erase_self]
  have hcompleted : onSyncComplete m.pfx w₁ = update (fun x => { x with
      syncCompleteCallbacks := x.syncCompleteCallbacks + 1 })
      (LocalRouteController.findExact m.pfx w₁).2 := by
    rw [onSyncComplete, if_neg]
    rw [← Option.not_isNone, hfree₁.findExact_isNone hgone]
    decide
  rw [hcompleted] at hresponse
  refine ⟨_, hresponse, ?_, ?_⟩
  · refine settle_eq_ok ?_
    show w₁.env.members.thrown = none
    rw [hretires.env]
    exact hthrown
  · have hfree₂ := hfree₁.findExact m.pfx
    exact
      { clock := hretires.clock
        env := by
          show { w₁.env with members := { w₁.env.members with
            syncCompleteCallbacks := w₁.env.members.syncCompleteCallbacks + 1 } } = _
          rw [hretires.env]
        leaseFree := hfree₂.elapse plain_temporaryConfig rfl rfl (Nat.le_refl _)
        seqMap := hretires.seqMap
        counters := hretires.counters
        admissions := hretires.admissions }

/-- A table with an entry is not empty. -/
theorem size_pos {β : Type} {m : Std.TreeMap Name β} {p : Name} (h : m.contains p = true) :
    0 < m.size := by
  have hnonempty : m.isEmpty = false :=
    Std.TreeMap.isEmpty_eq_false_iff_exists_contains_eq_true.mpr ⟨p, h⟩
  rw [Std.TreeMap.isEmpty_eq_size_eq_zero, beq_eq_false_iff_ne] at hnonempty
  exact Nat.pos_of_ne_zero hnonempty

/-- What the SyncAck callback does. -/
structure Completes (tc : Nat) (pfx : Name) (arrival : UInt64 × ℚ) (w w' : ExperimentWorld) :
    Prop where
  clock : w'.clock = w.clock
  central : w'.env.central = w.env.central
  leaseFree : LeaseFree tc w'
  seqMap : w'.ctl.seqMap = w.ctl.seqMap.erase pfx
  counters : w'.ctl.counters = { w.ctl.counters with
    syncCompletions := w.ctl.counters.syncCompletions + 1 }
  admissions : ∀ q, admissions w'.log q = admissions w.log q
  members : w'.env.members = { accounted (seconds w.clock.now) w.env.members with
    syncCompleteCallbacks := w.env.members.syncCompleteCallbacks + 1
    samples := w.env.members.samples ++ [⟨arrival.1, arrival.2, seconds w.clock.now,
      seconds w.clock.now - arrival.2⟩]
    arrivals := w.env.members.arrivals.erase pfx
    deleteLookupChecks := w.env.members.deleteLookupChecks + 1
    lastObservedSize := w.env.members.lastObservedSize - 1 }

/-- A resident prefix completes without an exception. -/
theorem completes_complete (h : Ready tc w) {m : ControlMessage} {arrival : UInt64 × ℚ}
    (htype : m.type = .syncAck) (hexpiry : m.routeExpiry = 0)
    (hresident : w.ctl.seqMap[m.pfx]? = some m.seq)
    (harrival : w.env.members.arrivals[m.pfx]? = some arrival) :
    ∃ w', complete m w = .ok w' ∧ Completes tc m.pfx arrival w w' := by
  obtain ⟨w₁, hw₁⟩ : ∃ w₁, w₁ = update (accounted (seconds w.clock.now)) w := ⟨_, rfl⟩
  have haccount : accountUntil (seconds w.clock.now) w = .ok w₁ :=
    hw₁ ▸ accountUntil_eq_ok h.transition
  have hready : Ready tc w₁ := hw₁ ▸ h.account
  have hsize₁ : verifyRealSize "before completion" w₁ = .ok () := hready.verifyRealSize_eq_ok _
  have harrival₁ : w₁.env.members.arrivals[m.pfx]? = some arrival := hw₁ ▸ harrival
  have hresident₁ : w₁.ctl.seqMap[m.pfx]? = some m.seq := hw₁ ▸ hresident
  have hexact₁ : (LocalRouteController.findExact m.pfx w₁).1.isSome = true :=
    hready.leaseFree.findExact_isSome hready.now hresident₁
  obtain ⟨w₂, hw₂⟩ : ∃ w₂, w₂ = (LocalRouteController.findExact m.pfx w₁).2 := ⟨_, rfl⟩
  have hfree₂ : LeaseFree tc w₂ := hw₂ ▸ hready.leaseFree.findExact m.pfx
  have hframe₂ : w₂.clock = w.clock ∧ w₂.log = w.log ∧ w₂.ctl.seqMap = w.ctl.seqMap ∧
      w₂.ctl.counters = w.ctl.counters ∧
      w₂.env = { w.env with members := accounted (seconds w.clock.now) w.env.members } := by
    rw [hw₂, hw₁]
    exact ⟨rfl, rfl, rfl, rfl, rfl⟩
  obtain ⟨hclock₂, hlog₂, hseqMap₂, hcounters₂, henv₂⟩ := hframe₂
  have hthrown₂ : w₂.env.members.thrown = none := by
    rw [henv₂]
    exact h.thrown
  obtain ⟨w₃, hresponse, hsettle, hresponds⟩ :=
    responds_handleControlResponse hfree₂ hthrown₂ htype hexpiry (hseqMap₂ ▸ hresident)
  have hseqMap₃ : w₃.ctl.seqMap = w.ctl.seqMap.erase m.pfx := by rw [hresponds.seqMap, hseqMap₂]
  have hexact₃ : (LocalRouteController.findExact m.pfx w₃).1.isNone = true := by
    refine hresponds.leaseFree.findExact_isNone ?_
    rw [hseqMap₃, Std.TreeMap.getElem?_erase_self]
  have hpresent : w.ctl.seqMap.contains m.pfx = true := by
    rw [Std.TreeMap.contains_eq_isSome_getElem?, hresident]
    rfl
  have hpos := size_pos hpresent
  have hbefore : w₂.ctl.fibSize = w.ctl.seqMap.size := by
    rw [LocalRouteController.fibSize, hseqMap₂]
  have hafter : w₃.ctl.fibSize = w.ctl.seqMap.size - 1 := by
    rw [LocalRouteController.fibSize, hseqMap₃, Std.TreeMap.size_erase, if_pos hpresent]
  have hdecreased : decide (w₂.ctl.fibSize ≠ 0 ∧ w₃.ctl.fibSize + 1 = w₂.ctl.fibSize) = true := by
    rw [hbefore, hafter, decide_eq_true_iff]
    omega
  have hack : decide (m.type = .syncAck) = true := decide_eq_true htype
  refine ⟨update (fun y => { y with
      samples := y.samples ++ [⟨arrival.1, arrival.2, seconds w.clock.now,
        seconds w.clock.now - arrival.2⟩]
      arrivals := y.arrivals.erase m.pfx
      deleteLookupChecks := y.deleteLookupChecks + 1
      lastObservedSize := w₃.ctl.fibSize }) (LocalRouteController.findExact m.pfx w₃).2, ?_, ?_⟩
  · simp only [complete, bind, Except.bind, require, hack, haccount, hsize₁, harrival₁, hexact₁,
      ← hw₂, hresponse, hsettle, hdecreased, hexact₃, if_true]
    rfl
  · have hfree₄ := hresponds.leaseFree.findExact m.pfx
    rw [hafter, h.size]
    exact
      { clock := hresponds.clock.trans hclock₂
        central := by
          show w₃.env.central = _
          rw [hresponds.env, henv₂]
        leaseFree := hfree₄.elapse plain_temporaryConfig rfl rfl (Nat.le_refl _)
        seqMap := hseqMap₃
        counters := by
          show w₃.ctl.counters = _
          rw [hresponds.counters, hcounters₂]
        admissions := fun q => (hresponds.admissions q).trans (by rw [hlog₂])
        members := by
          show { w₃.env.members with
            samples := w₃.env.members.samples ++ [(⟨arrival.1, arrival.2, seconds w.clock.now,
              seconds w.clock.now - arrival.2⟩ : Sample)]
            arrivals := w₃.env.members.arrivals.erase m.pfx
            deleteLookupChecks := w₃.env.members.deleteLookupChecks + 1
            lastObservedSize := w.env.members.lastObservedSize - 1 } = _
          rw [hresponds.env, henv₂]
          rfl }

/-- What the FlowMod of a prefix does to the flow-table controller. -/
structure Application (pfx : Name) (w w' : ExperimentWorld) : Prop where
  clock : w'.clock = w.clock
  events : w'.env.central.events = w.env.central.events
  draws : ∀ p, p ≠ pfx → w'.env.central.draws p = w.env.central.draws p
  packetIns : w'.env.central.counters .packetIns = w.env.central.counters .packetIns
  flowModsApplied :
    w'.env.central.counters .flowModsApplied = w.env.central.counters .flowModsApplied + 1
  syncAcksDropped :
    w'.env.central.counters .syncAcksDropped = w.env.central.counters .syncAcksDropped

theorem Application.trans_central {pfx : Name} {w₁ : ExperimentWorld} (h : Application pfx w w₁)
    (hclock : w'.clock = w₁.clock) (hcentral : w'.env.central = w₁.env.central) :
    Application pfx w w' := by
  refine ⟨hclock.trans h.clock, ?_, fun p hp => ?_, ?_, ?_, ?_⟩
  · rw [hcentral, h.events]
  · rw [hcentral, h.draws p hp]
  · rw [hcentral, h.packetIns]
  · rw [hcentral, h.flowModsApplied]
  · rw [hcentral, h.syncAcksDropped]

/-- What the SyncAck callback finds once the FlowMod has been applied. -/
structure Acknowledges (tc : Nat) (pfx : Name) (w w' : ExperimentWorld) : Prop
    extends Application pfx w w' where
  leaseFree : LeaseFree tc w'
  seqMap : w'.ctl.seqMap = w.ctl.seqMap
  counters : w'.ctl.counters = w.ctl.counters
  log : w'.log = w.log
  members : w'.env.members = { w.env.members with
    flowModsObserved := w.env.members.flowModsObserved + 1 }

/-- The FlowMod of a resident prefix is applied, and its SyncAck goes to the callback. -/
theorem acknowledges_attemptFlowMod (hfree : LeaseFree tc w)
    (hnow : (w.clock.now : Int) < timePointMax) {m : ControlMessage}
    (hexpiry : m.routeExpiry = 0) (hresident : w.ctl.seqMap[m.pfx]? = some m.seq)
    (hdraws : w.env.central.draws m.pfx % 6 = 3) :
    ∃ w', FlowTableController.attemptFlowMod (centralConfig tc) centralCallbacks m (toCentral w) =
        FlowTableController.count .syncAcksSent
          (onSyncAck { m with type := .syncAck } (toCentral w')) ∧
      Acknowledges tc m.pfx w w' := by
  obtain ⟨v, hv⟩ : ∃ v, v = FlowTableController.attempted m (toCentral w) := ⟨_, rfl⟩
  have hfree' : LeaseFree tc (toTemporary v) := by
    rw [hv]
    exact hfree.elapse plain_temporaryConfig rfl rfl (Nat.le_refl _)
  have hexact : (LocalRouteController.findExact m.pfx (toTemporary v)).1.isSome = true := by
    refine hfree'.findExact_isSome (s := m.seq) ?_ ?_
    · rw [hv]
      exact hnow
    · rw [hv]
      exact hresident
  obtain ⟨left, hleft⟩ : ∃ left, left = toCentral (update (fun x => { x with
      flowModsObserved := x.flowModsObserved + 1 })
      (LocalRouteController.findExact m.pfx (toTemporary v)).2) := ⟨_, rfl⟩
  have happly : onFlowMod { m with type := .flowMod } v = (true, left) := by
    rw [onFlowMod, if_neg (by simp), if_neg, hleft]
    rw [← Option.not_isSome, hexact]
    decide
  have hdraws' : left.ctl.draws m.pfx % 6 = 4 := by
    have hdrawn : left.ctl.draws m.pfx = w.env.central.draws m.pfx + 1 := by
      rw [hleft, hv]
      exact if_pos rfl
    omega
  rw [hv] at happly
  have hattempt := FlowTableController.attemptFlowMod_of_lossless (lossless_centralConfig tc)
    hexpiry (show centralCallbacks.apply = some onFlowMod from rfl)
    (show centralCallbacks.syncAck = some onSyncAck from rfl) happly hdraws'
  refine ⟨toTemporary (FlowTableController.acknowledged m left), hattempt, ?_⟩
  have hfree'' := hfree'.findExact m.pfx
  subst hleft hv
  constructor
  case toApplication =>
    refine ⟨rfl, rfl, fun p hp => ?_, rfl, rfl, rfl⟩
    simp [FlowTableController.acknowledged, FlowTableController.attempted,
      FlowTableController.draw, FlowTableController.count, hp, toCentral, toTemporary, update,
      LocalRouteController.findExact]
  case leaseFree => exact hfree''.elapse plain_temporaryConfig rfl rfl (Nat.le_refl _)
  case seqMap => rfl
  case counters => rfl
  case log => rfl
  case members => rfl

/-- What the event of a FlowMod does. -/
structure Applies (tc : Nat) (pfx : Name) (arrival : UInt64 × ℚ) (w w' : ExperimentWorld) :
    Prop extends Application pfx w w' where
  leaseFree : LeaseFree tc w'
  seqMap : w'.ctl.seqMap = w.ctl.seqMap.erase pfx
  counters : w'.ctl.counters = { w.ctl.counters with
    syncCompletions := w.ctl.counters.syncCompletions + 1 }
  admissions : ∀ q, admissions w'.log q = admissions w.log q
  members : w'.env.members = { accounted (seconds w.clock.now) w.env.members with
    flowModsObserved := w.env.members.flowModsObserved + 1
    syncCompleteCallbacks := w.env.members.syncCompleteCallbacks + 1
    samples := w.env.members.samples ++ [⟨arrival.1, arrival.2, seconds w.clock.now,
      seconds w.clock.now - arrival.2⟩]
    arrivals := w.env.members.arrivals.erase pfx
    deleteLookupChecks := w.env.members.deleteLookupChecks + 1
    lastObservedSize := w.env.members.lastObservedSize - 1 }

/-- The FlowMod of a resident prefix is applied and completes it. -/
theorem applies_attemptFlowMod (h : Ready tc w) {m : ControlMessage} {arrival : UInt64 × ℚ}
    (hexpiry : m.routeExpiry = 0) (hresident : w.ctl.seqMap[m.pfx]? = some m.seq)
    (harrival : w.env.members.arrivals[m.pfx]? = some arrival)
    (hdraws : w.env.central.draws m.pfx % 6 = 3) :
    ∃ w', settle (toTemporary (FlowTableController.attemptFlowMod (centralConfig tc)
        centralCallbacks m (toCentral w))) = .ok w' ∧
      Applies tc m.pfx arrival w w' := by
  obtain ⟨w₁, hattempt, hacks⟩ :=
    acknowledges_attemptFlowMod h.leaseFree h.now hexpiry hresident hdraws
  have hready : Ready tc w₁ := by
    refine ⟨hacks.leaseFree, ?_, ?_, ?_, ?_⟩
    · rw [hacks.members]
      exact h.thrown
    · rw [hacks.members, hacks.clock]
      exact h.transition
    · rw [hacks.clock]
      exact h.now
    · rw [hacks.members, hacks.seqMap]
      exact h.size
  have harrival₁ : w₁.env.members.arrivals[m.pfx]? = some arrival := by
    rw [hacks.members]
    exact harrival
  obtain ⟨w₂, hok, hcompletes⟩ := completes_complete hready (m := { m with type := .syncAck }) rfl
    hexpiry (hacks.seqMap ▸ hresident) harrival₁
  have hcallback : onSyncAck { m with type := .syncAck } (toCentral w₁) = toCentral w₂ := by
    rw [onSyncAck, toTemporary_toCentral, hok]
  have hthrown : w₂.env.members.thrown = none := by
    rw [hcompletes.members, hacks.members]
    exact h.thrown
  rw [hattempt, hcallback]
  refine ⟨toTemporary (FlowTableController.count .syncAcksSent (toCentral w₂)),
    settle_eq_ok hthrown, ?_⟩
  constructor
  case toApplication =>
    have happlication := hacks.toApplication.trans_central hcompletes.clock hcompletes.central
    exact { happlication with }
  case leaseFree =>
    exact hcompletes.leaseFree.elapse plain_temporaryConfig rfl rfl (Nat.le_refl _)
  case seqMap =>
    show w₂.ctl.seqMap = _
    rw [hcompletes.seqMap, hacks.seqMap]
  case counters =>
    show w₂.ctl.counters = _
    rw [hcompletes.counters, hacks.counters]
  case admissions => exact fun q => (hcompletes.admissions q).trans (by rw [hacks.log])
  case members =>
    show w₂.env.members = _
    rw [hcompletes.members, hacks.members, hacks.clock]
    rfl

end Statim.Occupancy
