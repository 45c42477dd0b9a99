import Statim.Occupancy.Events
import Statim.Support.DelayLine

/-!
# The experiment as a delay line

The prefixes of a run enter and leave the temporary FIB as the items of a delay line do:
an arrival event is an entry, the event of a FlowMod is an exit, and the area and the
high-water mark of the experiment are those of the line.
-/

namespace Statim.Occupancy

open Support

abbrev Line := DelayLine (UInt64 × Nat) ℚ

def arrivalTime (x : UInt64 × Nat) : ℚ := seconds x.2

/-- The sample of a prefix that has left. -/
def sampleOf (tc : Nat) (x : UInt64 × Nat) : Sample :=
  ⟨x.1, seconds x.2, seconds (x.2 + tc), seconds (x.2 + tc) - seconds x.2⟩

/-- Arrivals still to come, in the queue of the driver. -/
def arrivalEvents (uid : Nat) (l : List (UInt64 × Nat)) : List (Scheduled DriverEvent) :=
  series Prod.snd (fun x => .arrive x.1) uid l

/-- Completions still to come, in the queue of the flow-table controller. -/
def completionEvents (stdHash : Bytes → Nat) (tc uid : Nat) (l : List (UInt64 × Nat)) :
    List (Scheduled FlowTableEvent) :=
  series (fun x => x.2 + tc) (fun x => .attemptFlowMod (admission stdHash x).packetIn) uid l

/-- The event that ends the run. -/
def stopEvent (work : Workload) : Scheduled DriverEvent :=
  ⟨work.horizon + 1, work.arrivals.length, .stop⟩

/-- The counters after some arrivals and completions. -/
structure Counts (arrived completed : Nat) (w : ExperimentWorld) : Prop where
  traceUpdatesAccepted : w.env.members.traceUpdatesAccepted = arrived
  tempUpdates : w.ctl.counters.tempUpdates = arrived
  controlPackets : w.ctl.counters.controlPackets = arrived
  syncCompletions : w.ctl.counters.syncCompletions = completed
  controllerRetries : w.ctl.counters.controllerRetries = 0
  temporaryRouteWithdrawals : w.ctl.counters.temporaryRouteWithdrawals = 0
  packetIns : w.env.central.counters .packetIns = arrived
  flowModsApplied : w.env.central.counters .flowModsApplied = completed
  syncAcksDropped : w.env.central.counters .syncAcksDropped = 0
  controlRequestsObserved : w.env.members.controlRequestsObserved = arrived
  flowModsObserved : w.env.members.flowModsObserved = completed
  syncCompleteCallbacks : w.env.members.syncCompleteCallbacks = completed
  insertLookupChecks : w.env.members.insertLookupChecks = arrived
  deleteLookupChecks : w.env.members.deleteLookupChecks = completed

/-- The queues hold the arrivals and the completions of the line. -/
structure Queues (stdHash : Bytes → Nat) (work : Workload) (line : Line)
    (w : ExperimentWorld) : Prop where
  now : seconds w.clock.now = line.now
  uid : w.clock.uid = work.arrivals.length + 1 + line.done.length + line.inside.length
  driver : w.env.members.driver =
    arrivalEvents (line.done.length + line.inside.length) line.ahead ++ [stopEvent work]
  central : w.env.central.events =
    completionEvents stdHash work.tc (work.arrivals.length + 1 + line.done.length) line.inside
  stopped : w.env.members.stopped = false
  thrown : w.env.members.thrown = none

/-- The controllers hold the prefixes inside, and know nothing of those ahead. -/
structure Tables (tc : Nat) (line : Line) (w : ExperimentWorld) : Prop where
  leaseFree : LeaseFree tc w
  size : w.ctl.seqMap.size = line.inside.length
  resident : ∀ x ∈ line.inside, w.ctl.seqMap[generatedPrefix x.1]? = some (x.1 + 1).toNat
  vacant : ∀ p, (∀ x ∈ line.inside, generatedPrefix x.1 ≠ p) → w.ctl.seqMap[p]? = none
  unseen : ∀ x ∈ line.ahead, admissions w.log (generatedPrefix x.1) = []
  drawsInside : ∀ x ∈ line.inside, w.env.central.draws (generatedPrefix x.1) = 3
  drawsAhead : ∀ x ∈ line.ahead, w.env.central.draws (generatedPrefix x.1) = 0

/-- The experiment has measured what the line accounts for. -/
structure Measures (tc : Nat) (line : Line) (x : TemporaryFibExperiment) : Prop where
  observed : x.lastObservedSize = line.inside.length
  active : (sweep line.history).1 = line.inside.length
  highWater : (sweep line.history).2 = x.highWater
  transition : x.lastTransition = line.now
  area : x.area = line.area
  samples : x.samples = line.done.map (sampleOf tc)
  resident : ∀ y ∈ line.inside, x.arrivals[generatedPrefix y.1]? = some (y.1, seconds y.2)
  vacant : ∀ p, (∀ y ∈ line.inside, generatedPrefix y.1 ≠ p) → x.arrivals[p]? = none

/-- The world does what the line does. -/
structure Tracks (stdHash : Bytes → Nat) (work : Workload) (line : Line)
    (w : ExperimentWorld) : Prop where
  queues : Queues stdHash work line w
  tables : Tables work.tc line w
  measures : Measures work.tc line w.env.members
  counts : Counts (line.done.length + line.inside.length) line.done.length w

/-! ## The line of a workload -/

variable {stdHash : Bytes → Nat} {work : Workload} {line : Line}
  {w w' : ExperimentWorld} {x : UInt64 × Nat} {rest : List (UInt64 × Nat)}

/-- The states of the line of a workload. -/
abbrev LineInv (work : Workload) (line : Line) : Prop :=
  DelayLine.Inv arrivalTime (seconds work.tc) work.arrivals line

theorem sorted_arrivalTime (work : Workload) :
    work.arrivals.Pairwise fun x y => arrivalTime x ≤ arrivalTime y :=
  work.sorted.imp fun h => seconds_le_iff.mpr h

theorem le_foldl_max (l : List Nat) (a : Nat) :
    a ≤ l.foldl max a ∧ ∀ t ∈ l, t ≤ l.foldl max a := by
  induction l generalizing a with
  | nil => exact ⟨Nat.le_refl a, fun t ht => absurd ht List.not_mem_nil⟩
  | cons b l ih =>
      obtain ⟨hfirst, hrest⟩ := ih (max a b)
      refine ⟨(Nat.le_max_left a b).trans hfirst, fun t ht => ?_⟩
      rcases List.mem_cons.mp ht with rfl | ht
      · exact (Nat.le_max_right a t).trans hfirst
      · exact hrest t ht

theorem le_lastArrival (hx : x ∈ work.arrivals) : x.2 ≤ work.lastArrival :=
  (le_foldl_max _ 0).2 x.2 (List.mem_map_of_mem hx)

theorem LineInv.mem_inside (h : LineInv work line) (hx : x ∈ line.inside) : x ∈ work.arrivals := by
  rw [← h.split]
  exact List.mem_append_right _ (List.mem_append_left _ hx)

theorem LineInv.mem_ahead (h : LineInv work line) (hx : x ∈ line.ahead) : x ∈ work.arrivals := by
  rw [← h.split]
  exact List.mem_append_right _ (List.mem_append_right _ hx)

theorem LineInv.length (h : LineInv work line) :
    line.done.length + line.inside.length + line.ahead.length = work.arrivals.length := by
  rw [← h.split, List.length_append, List.length_append, Nat.add_assoc]

/-- Prefixes that have not left are distinct. -/
theorem LineInv.distinct (h : LineInv work line) :
    (line.inside ++ line.ahead).Pairwise fun x y => generatedPrefix x.1 ≠ generatedPrefix y.1 := by
  have hnodup := work.nodup
  rw [← h.split, List.map_append] at hnodup
  refine (List.pairwise_map.mp (List.nodup_append.mp hnodup).2.1).imp fun hne heq => ?_
  exact hne (generatedPrefix_inj.mp heq)

/-- Time points last longer than a run. -/
theorem lt_timePointMax {t : Nat} (h : t ≤ work.horizon) : (t : Int) < timePointMax := by
  have hstop : work.lastArrival + work.tc + 1 < 2 ^ 63 := work.stop_lt
  have hle : t ≤ work.lastArrival + work.tc := h
  rw [timePointMax]
  omega

/-! ## What the tables hold -/

/-- A table holds the prefixes of some arrivals, and no other. -/
structure Holds {β : Type} (m : Std.TreeMap Name β) (value : UInt64 × Nat → β)
    (l : List (UInt64 × Nat)) : Prop where
  resident : ∀ x ∈ l, m[generatedPrefix x.1]? = some (value x)
  vacant : ∀ p, (∀ x ∈ l, generatedPrefix x.1 ≠ p) → m[p]? = none

section

variable {β : Type} {m : Std.TreeMap Name β} {value : UInt64 × Nat → β}
  {l : List (UInt64 × Nat)}

theorem Holds.insert (h : Holds m value l)
    (hapart : ∀ y ∈ l, generatedPrefix y.1 ≠ generatedPrefix x.1) :
    Holds (m.insert (generatedPrefix x.1) (value x)) value (l ++ [x]) := by
  have hlookup : ∀ p, (m.insert (generatedPrefix x.1) (value x))[p]? =
      if generatedPrefix x.1 = p then some (value x) else m[p]? := by
    intro p
    simp only [Std.TreeMap.getElem?_insert, Std.LawfulEqOrd.compare_eq_iff_eq]
  constructor
  case resident =>
    intro y hy
    rw [hlookup]
    rcases List.mem_append.mp hy with hy | hy
    · rw [if_neg (Ne.symm (hapart y hy)), h.resident y hy]
    · rw [List.mem_singleton.mp hy, if_pos rfl]
  case vacant =>
    intro p hp
    rw [hlookup, if_neg (hp x (List.mem_append_right _ (List.mem_singleton_self x)))]
    exact h.vacant p fun y hy => hp y (List.mem_append_left _ hy)

theorem Holds.erase (h : Holds m value (x :: rest))
    (hapart : ∀ y ∈ rest, generatedPrefix y.1 ≠ generatedPrefix x.1) :
    Holds (m.erase (generatedPrefix x.1)) value rest := by
  have hlookup : ∀ p, (m.erase (generatedPrefix x.1))[p]? =
      if generatedPrefix x.1 = p then none else m[p]? := by
    intro p
    simp only [Std.TreeMap.getElem?_erase, Std.LawfulEqOrd.compare_eq_iff_eq]
  constructor
  case resident =>
    intro y hy
    rw [hlookup, if_neg (Ne.symm (hapart y hy))]
    exact h.resident y (List.mem_cons_of_mem x hy)
  case vacant =>
    intro p hp
    rw [hlookup]
    split_ifs with heq
    · rfl
    · refine h.vacant p fun y hy => ?_
      rcases List.mem_cons.mp hy with rfl | hy
      · exact heq
      · exact hp y hy

end

/-! ## Entries -/

/-- What an arrival finds. -/
theorem Tracks.ready_arrive (h : Tracks stdHash work line w) (hline : LineInv work line)
    (hahead : line.ahead = x :: rest) (e : Scheduled SystemEvent) (hts : e.ts = x.2) :
    Ready work.tc (takeDriver e w) := by
  have hx : x ∈ line.ahead := hahead ▸ List.mem_cons_self
  have hnow : w.clock.now ≤ x.2 := by
    rw [← seconds_le_iff, h.queues.now]
    exact hline.ahead x hx
  constructor
  case leaseFree =>
    refine h.tables.leaseFree.elapse plain_temporaryConfig rfl rfl ?_
    show w.clock.now ≤ e.ts
    rw [hts]
    exact hnow
  case thrown => exact h.queues.thrown
  case transition =>
    show w.env.members.lastTransition ≤ seconds e.ts
    rw [h.measures.transition, ← h.queues.now, hts]
    exact seconds_le_iff.mpr hnow
  case now =>
    show (e.ts : Int) < timePointMax
    rw [hts]
    have hlast := le_lastArrival (hline.mem_ahead hx)
    exact lt_timePointMax (hlast.trans (Nat.le_add_right _ _))
  case size =>
    show w.ctl.seqMap.size = w.env.members.lastObservedSize
    rw [h.tables.size, h.measures.observed]

theorem Queues.arrive (h : Queues stdHash work line w) (hline : LineInv work line)
    (hahead : line.ahead = x :: rest) {e : Scheduled SystemEvent} (hts : e.ts = x.2)
    (huid : e.uid = line.done.length + line.inside.length)
    (harrives : Arrives stdHash work.tc x (takeDriver e w) w') :
    Queues stdHash work (line.enter arrivalTime x rest) w' := by
  have hlength := hline.length
  rw [hahead, List.length_cons] at hlength
  have hinside : (line.enter arrivalTime x rest).inside = line.inside ++ [x] := rfl
  have hclock : w'.clock = ⟨x.2, w.clock.uid + 1⟩ := by
    rw [harrives.clock, ← hts]
    rfl
  constructor
  case now =>
    rw [hclock]
    rfl
  case uid =>
    rw [hclock, hinside, List.length_append, h.uid]
    rfl
  case driver =>
    rw [harrives.members]
    show cancel e.uid w.env.members.driver = _
    have hstop : cancel e.uid [stopEvent work] = [stopEvent work] := by
      refine cancel_of_fresh fun e' he' => ?_
      rw [List.mem_singleton.mp he', huid]
      show work.arrivals.length ≠ _
      omega
    rw [h.driver, cancel_append, hstop, hahead, huid, arrivalEvents, cancel_series, hinside,
      List.length_append]
    rfl
  case central =>
    have hdone : (line.enter arrivalTime x rest).done = line.done := rfl
    rw [harrives.events, hinside, hdone, completionEvents, series_concat, ← completionEvents,
      ← h.central, ← h.uid, ← hts]
    rfl
  case stopped =>
    rw [harrives.members]
    exact h.stopped
  case thrown =>
    rw [harrives.members]
    exact h.thrown

theorem Tables.arrive (h : Tables work.tc line w) (hline : LineInv work line)
    (hahead : line.ahead = x :: rest) {e : Scheduled SystemEvent}
    (harrives : Arrives stdHash work.tc x (takeDriver e w) w') :
    Tables work.tc (line.enter arrivalTime x rest) w' := by
  have hdistinct := hline.distinct
  rw [hahead] at hdistinct
  obtain ⟨-, hrest, hother⟩ := List.pairwise_append.mp hdistinct
  have hapart : ∀ y ∈ rest, generatedPrefix y.1 ≠ generatedPrefix x.1 := fun y hy heq =>
    List.rel_of_pairwise_cons hrest hy heq.symm
  have hinside : ∀ y ∈ line.inside, generatedPrefix y.1 ≠ generatedPrefix x.1 := fun y hy =>
    hother y hy x List.mem_cons_self
  have hmem : ∀ y ∈ rest, y ∈ line.ahead := fun y hy => hahead ▸ List.mem_cons_of_mem x hy
  have hholds : Holds w'.ctl.seqMap (fun y => (y.1 + 1).toNat) (line.inside ++ [x]) := by
    have hbefore : Holds w.ctl.seqMap (fun y => (y.1 + 1).toNat) line.inside :=
      ⟨h.resident, h.vacant⟩
    rw [harrives.seqMap]
    exact hbefore.insert hinside
  constructor
  case leaseFree => exact harrives.leaseFree
  case size =>
    rw [harrives.seqMap, Std.TreeMap.size_insert, Std.TreeMap.contains_eq_isSome_getElem?]
    show (if (w.ctl.seqMap[generatedPrefix x.1]?).isSome then _ else w.ctl.seqMap.size + 1) = _
    rw [h.vacant _ hinside, h.size]
    simp [DelayLine.enter]
  case resident => exact hholds.resident
  case vacant => exact hholds.vacant
  case unseen =>
    intro y hy
    rw [harrives.admissions _ (hapart y hy)]
    exact h.unseen y (hmem y hy)
  case drawsInside =>
    intro y hy
    rw [harrives.draws]
    rcases List.mem_append.mp hy with hy | hy
    · rw [if_neg (hinside y hy)]
      exact h.drawsInside y hy
    · have hzero : w.env.central.draws (generatedPrefix x.1) = 0 :=
        h.drawsAhead x (hahead ▸ List.mem_cons_self)
      rw [List.mem_singleton.mp hy, if_pos rfl]
      show w.env.central.draws (generatedPrefix x.1) + 3 = 3
      rw [hzero]
  case drawsAhead =>
    intro y hy
    rw [harrives.draws, if_neg (hapart y hy)]
    exact h.drawsAhead y (hmem y hy)

theorem Measures.arrive (h : Measures work.tc line w.env.members) (hline : LineInv work line)
    (hahead : line.ahead = x :: rest) {e : Scheduled SystemEvent} (hts : e.ts = x.2)
    (harrives : Arrives stdHash work.tc x (takeDriver e w) w') :
    Measures work.tc (line.enter arrivalTime x rest) w'.env.members := by
  have hdistinct := hline.distinct
  rw [hahead] at hdistinct
  have hinside : ∀ y ∈ line.inside, generatedPrefix y.1 ≠ generatedPrefix x.1 := fun y hy =>
    (List.pairwise_append.mp hdistinct).2.2 y hy x List.mem_cons_self
  have hnow : seconds (takeDriver e w).clock.now = arrivalTime x := by
    show seconds e.ts = _
    rw [hts]
    rfl
  have hmembers := harrives.members
  rw [hnow] at hmembers
  have hholds : Holds w'.env.members.arrivals (fun y => (y.1, seconds y.2))
      (line.inside ++ [x]) := by
    have hbefore : Holds w.env.members.arrivals (fun y => (y.1, seconds y.2)) line.inside :=
      ⟨h.resident, h.vacant⟩
    rw [hmembers]
    exact hbefore.insert hinside
  have hlength : (line.enter arrivalTime x rest).inside.length = line.inside.length + 1 := by
    simp [DelayLine.enter]
  have hswept : sweep (line.enter arrivalTime x rest).history =
      sweepStep (sweep line.history) (SweepEvent.arrival (arrivalTime x)) :=
    sweep_concat _ _
  constructor
  case observed =>
    rw [hmembers, hlength, ← h.observed]
    rfl
  case active =>
    rw [hswept, hlength, sweepStep, h.active]
    rfl
  case highWater =>
    rw [hswept, sweepStep, h.highWater, h.active, ← h.observed, hmembers]
    show max (w.env.members.highWater : ℤ) (w.env.members.lastObservedSize + 1) =
      ((max w.env.members.highWater (w.env.members.lastObservedSize + 1) : ℕ) : ℤ)
    rw [Nat.cast_max, Nat.cast_succ]
  case transition =>
    rw [hmembers]
    rfl
  case area =>
    rw [hmembers]
    show w.env.members.area + w.env.members.lastObservedSize *
      (arrivalTime x - w.env.members.lastTransition) = line.areaAt (arrivalTime x)
    rw [DelayLine.areaAt, h.area, h.observed, h.transition, nsmul_eq_mul]
  case samples =>
    rw [hmembers]
    exact h.samples
  case resident => exact hholds.resident
  case vacant => exact hholds.vacant

theorem Counts.arrive {arrived completed : Nat} (h : Counts arrived completed w)
    {e : Scheduled SystemEvent} (harrives : Arrives stdHash work.tc x (takeDriver e w) w') :
    Counts (arrived + 1) completed w' where
  traceUpdatesAccepted := by rw [harrives.members, ← h.traceUpdatesAccepted]; rfl
  tempUpdates := by rw [harrives.counters, ← h.tempUpdates]; rfl
  controlPackets := by rw [harrives.counters, ← h.controlPackets]; rfl
  syncCompletions := by rw [harrives.counters, ← h.syncCompletions]; rfl
  controllerRetries := by rw [harrives.counters, ← h.controllerRetries]; rfl
  temporaryRouteWithdrawals := by
    rw [harrives.counters, ← h.temporaryRouteWithdrawals]
    rfl
  packetIns := by rw [harrives.packetIns, ← h.packetIns]; rfl
  flowModsApplied := by rw [harrives.flowModsApplied, ← h.flowModsApplied]; rfl
  syncAcksDropped := by rw [harrives.syncAcksDropped, ← h.syncAcksDropped]; rfl
  controlRequestsObserved := by rw [harrives.members, ← h.controlRequestsObserved]; rfl
  flowModsObserved := by rw [harrives.members, ← h.flowModsObserved]; rfl
  syncCompleteCallbacks := by rw [harrives.members, ← h.syncCompleteCallbacks]; rfl
  insertLookupChecks := by rw [harrives.members, ← h.insertLookupChecks]; rfl
  deleteLookupChecks := by rw [harrives.members, ← h.deleteLookupChecks]; rfl

/-- The arrival event at the head of the driver's queue is an entry into the line. -/
theorem Tracks.arrive (h : Tracks stdHash work line w) (hline : LineInv work line)
    (hahead : line.ahead = x :: rest) {e : Scheduled SystemEvent} (hts : e.ts = x.2)
    (huid : e.uid = line.done.length + line.inside.length)
    (hevent : e.event = .driver (.arrive x.1)) :
    ∃ w', fire stdHash work.tc e w = .ok w' ∧
      Tracks stdHash work (line.enter arrivalTime x rest) w' := by
  have hx : x ∈ line.ahead := hahead ▸ List.mem_cons_self
  have hdistinct := hline.distinct
  rw [hahead] at hdistinct
  have hinside : ∀ y ∈ line.inside, generatedPrefix y.1 ≠ generatedPrefix x.1 := fun y hy =>
    (List.pairwise_append.mp hdistinct).2.2 y hy x List.mem_cons_self
  obtain ⟨w', hok, harrives⟩ := arrives_arrive (h.ready_arrive hline hahead e hts) hts
    (h.tables.vacant _ hinside) (h.measures.vacant _ hinside) (h.tables.unseen x hx)
    (h.tables.drawsAhead x hx)
  refine ⟨w', ?_, h.queues.arrive hline hahead hts huid harrives,
    h.tables.arrive hline hahead harrives, h.measures.arrive hline hahead hts harrives, ?_⟩
  · rw [fire, hevent]
    exact hok
  · have hcounts := h.counts.arrive harrives
    rw [show (line.enter arrivalTime x rest).inside = line.inside ++ [x] from rfl,
      List.length_append, ← Nat.add_assoc]
    exact hcounts

/-! ## Exits -/

/-- Take an event of the flow-table controller off the queue. -/
def takeCentral (e : Scheduled FlowTableEvent) (w : ExperimentWorld) : ExperimentWorld :=
  toTemporary (FlowTableController.take e (toCentral w))

/-- What a completion finds. -/
theorem Tracks.ready_leave (h : Tracks stdHash work line w) (hline : LineInv work line)
    (hinside : line.inside = x :: rest) (e : Scheduled FlowTableEvent)
    (hts : e.ts = x.2 + work.tc) : Ready work.tc (takeCentral e w) := by
  have hx : x ∈ line.inside := hinside ▸ List.mem_cons_self
  have hnow : w.clock.now ≤ e.ts := by
    rw [← seconds_le_iff, h.queues.now, hts, seconds_add]
    exact hline.due x hx
  constructor
  case leaseFree => exact h.tables.leaseFree.elapse plain_temporaryConfig rfl rfl hnow
  case thrown => exact h.queues.thrown
  case transition =>
    show w.env.members.lastTransition ≤ seconds e.ts
    rw [h.measures.transition, ← h.queues.now]
    exact seconds_le_iff.mpr hnow
  case now =>
    show (e.ts : Int) < timePointMax
    have hlast := le_lastArrival (hline.mem_inside hx)
    rw [hts]
    exact lt_timePointMax (Nat.add_le_add_right hlast work.tc)
  case size =>
    show w.ctl.seqMap.size = w.env.members.lastObservedSize
    rw [h.tables.size, h.measures.observed]

theorem Queues.leave (h : Queues stdHash work line w) (hinside : line.inside = x :: rest)
    {e : Scheduled FlowTableEvent} (hts : e.ts = x.2 + work.tc)
    (huid : e.uid = work.arrivals.length + 1 + line.done.length) {arrival : UInt64 × ℚ}
    (happlies : Applies work.tc (generatedPrefix x.1) arrival (takeCentral e w) w') :
    Queues stdHash work (line.leave arrivalTime (seconds work.tc) x rest) w' := by
  have hclock : w'.clock = ⟨x.2 + work.tc, w.clock.uid⟩ := by
    rw [happlies.clock, ← hts]
    rfl
  have hlength : (line.leave arrivalTime (seconds work.tc) x rest).done.length =
      line.done.length + 1 := by
    simp [DelayLine.leave]
  have hinside' : (line.leave arrivalTime (seconds work.tc) x rest).inside = rest := rfl
  have huid' := h.uid
  rw [hinside, List.length_cons] at huid'
  constructor
  case now =>
    rw [hclock]
    exact seconds_add _ _
  case uid =>
    rw [hclock, hlength, hinside', huid']
    omega
  case driver =>
    rw [happlies.members]
    show w.env.members.driver = _
    rw [h.driver, hlength, hinside', hinside, List.length_cons, Nat.add_right_comm,
      Nat.add_assoc]
    rfl
  case central =>
    rw [happlies.events, hlength, hinside']
    show cancel e.uid w.env.central.events = _
    rw [h.central, huid, hinside, completionEvents, cancel_series]
    rfl
  case stopped =>
    rw [happlies.members]
    exact h.stopped
  case thrown =>
    rw [happlies.members]
    exact h.thrown

/-- The prefixes that are still inside are others than the first. -/
theorem LineInv.apart (hline : LineInv work line) (hinside : line.inside = x :: rest) :
    (∀ y ∈ rest, generatedPrefix y.1 ≠ generatedPrefix x.1) ∧
      ∀ y ∈ line.ahead, generatedPrefix y.1 ≠ generatedPrefix x.1 := by
  have hdistinct := hline.distinct
  rw [hinside, List.cons_append] at hdistinct
  have hall : ∀ y ∈ rest ++ line.ahead, generatedPrefix y.1 ≠ generatedPrefix x.1 :=
    fun y hy => (List.rel_of_pairwise_cons hdistinct hy).symm
  exact ⟨fun y hy => hall y (List.mem_append_left _ hy),
    fun y hy => hall y (List.mem_append_right _ hy)⟩

theorem Tables.leave (h : Tables work.tc line w) (hline : LineInv work line)
    (hinside : line.inside = x :: rest) {e : Scheduled FlowTableEvent} {arrival : UInt64 × ℚ}
    (happlies : Applies work.tc (generatedPrefix x.1) arrival (takeCentral e w) w') :
    Tables work.tc (line.leave arrivalTime (seconds work.tc) x rest) w' := by
  obtain ⟨hrest, hahead⟩ := hline.apart hinside
  have hmem : ∀ y ∈ rest, y ∈ line.inside := fun y hy => hinside ▸ List.mem_cons_of_mem x hy
  have hholds : Holds w'.ctl.seqMap (fun y => (y.1 + 1).toNat) rest := by
    have hbefore : Holds w.ctl.seqMap (fun y => (y.1 + 1).toNat) line.inside :=
      ⟨h.resident, h.vacant⟩
    rw [hinside] at hbefore
    rw [happlies.seqMap]
    exact hbefore.erase hrest
  constructor
  case leaseFree => exact happlies.leaseFree
  case size =>
    rw [happlies.seqMap, Std.TreeMap.size_erase, Std.TreeMap.contains_eq_isSome_getElem?]
    show (if (w.ctl.seqMap[generatedPrefix x.1]?).isSome then w.ctl.seqMap.size - 1 else _) = _
    rw [h.resident x (hinside ▸ List.mem_cons_self), h.size, hinside]
    rfl
  case resident => exact hholds.resident
  case vacant => exact hholds.vacant
  case unseen => exact fun y hy => (happlies.admissions _).trans (h.unseen y hy)
  case drawsInside =>
    intro y hy
    rw [happlies.draws _ (hrest y hy)]
    exact h.drawsInside y (hmem y hy)
  case drawsAhead =>
    intro y hy
    rw [happlies.draws _ (hahead y hy)]
    exact h.drawsAhead y hy

theorem Measures.leave (h : Measures work.tc line w.env.members) (hline : LineInv work line)
    (hinside : line.inside = x :: rest) {e : Scheduled FlowTableEvent}
    (hts : e.ts = x.2 + work.tc)
    (happlies : Applies work.tc (generatedPrefix x.1) (x.1, seconds x.2) (takeCentral e w) w') :
    Measures work.tc (line.leave arrivalTime (seconds work.tc) x rest) w'.env.members := by
  obtain ⟨hrest, -⟩ := hline.apart hinside
  have hnow : seconds (takeCentral e w).clock.now = seconds (x.2 + work.tc) := by
    rw [← hts]
    rfl
  have hmembers := happlies.members
  rw [hnow] at hmembers
  have hholds : Holds w'.env.members.arrivals (fun y => (y.1, seconds y.2)) rest := by
    have hbefore : Holds w.env.members.arrivals (fun y => (y.1, seconds y.2)) line.inside :=
      ⟨h.resident, h.vacant⟩
    rw [hinside] at hbefore
    rw [hmembers]
    exact hbefore.erase hrest
  have hlength : line.inside.length = rest.length + 1 := by rw [hinside, List.length_cons]
  have hswept : sweep (line.leave arrivalTime (seconds work.tc) x rest).history =
      sweepStep (sweep line.history) (SweepEvent.departure (arrivalTime x + seconds work.tc)) :=
    sweep_concat _ _
  constructor
  case observed =>
    rw [hmembers]
    show w.env.members.lastObservedSize - 1 = rest.length
    rw [h.observed, hlength, Nat.add_sub_cancel]
  case active =>
    rw [hswept, sweepStep, h.active, hlength]
    show ((rest.length + 1 : ℕ) : ℤ) + -1 = rest.length
    omega
  case highWater =>
    -- the number of open spans only falls, so the peak stays
    have hle : (sweep line.history).1 ≤ (sweep line.history).2 := le_peak (List.prefix_refl _)
    rw [hswept, sweepStep, SweepEvent.delta_departure, max_eq_left (by omega), h.highWater,
      hmembers]
    rfl
  case transition =>
    rw [hmembers]
    exact seconds_add _ _
  case area =>
    rw [hmembers]
    show w.env.members.area + w.env.members.lastObservedSize *
      (seconds (x.2 + work.tc) - w.env.members.lastTransition) =
        line.areaAt (arrivalTime x + seconds work.tc)
    rw [DelayLine.areaAt, h.area, h.observed, h.transition, nsmul_eq_mul, seconds_add]
    rfl
  case samples =>
    rw [hmembers]
    show w.env.members.samples ++ [sampleOf work.tc x] = (line.done ++ [x]).map (sampleOf work.tc)
    rw [h.samples, List.map_append]
    rfl
  case resident => exact hholds.resident
  case vacant => exact hholds.vacant

theorem Counts.leave {arrived completed : Nat} (h : Counts arrived completed w)
    {e : Scheduled FlowTableEvent} {pfx : Name} {arrival : UInt64 × ℚ}
    (happlies : Applies work.tc pfx arrival (takeCentral e w) w') :
    Counts arrived (completed + 1) w' where
  traceUpdatesAccepted := by rw [happlies.members, ← h.traceUpdatesAccepted]; rfl
  tempUpdates := by rw [happlies.counters, ← h.tempUpdates]; rfl
  controlPackets := by rw [happlies.counters, ← h.controlPackets]; rfl
  syncCompletions := by rw [happlies.counters, ← h.syncCompletions]; rfl
  controllerRetries := by rw [happlies.counters, ← h.controllerRetries]; rfl
  temporaryRouteWithdrawals := by
    rw [happlies.counters, ← h.temporaryRouteWithdrawals]
    rfl
  packetIns := by rw [happlies.packetIns, ← h.packetIns]; rfl
  flowModsApplied := by rw [happlies.flowModsApplied, ← h.flowModsApplied]; rfl
  syncAcksDropped := by rw [happlies.syncAcksDropped, ← h.syncAcksDropped]; rfl
  controlRequestsObserved := by rw [happlies.members, ← h.controlRequestsObserved]; rfl
  flowModsObserved := by rw [happlies.members, ← h.flowModsObserved]; rfl
  syncCompleteCallbacks := by rw [happlies.members, ← h.syncCompleteCallbacks]; rfl
  insertLookupChecks := by rw [happlies.members, ← h.insertLookupChecks]; rfl
  deleteLookupChecks := by rw [happlies.members, ← h.deleteLookupChecks]; rfl

/-- The FlowMod at the head of the flow-table controller's queue is an exit from the line. -/
theorem Tracks.leave (h : Tracks stdHash work line w) (hline : LineInv work line)
    (hinside : line.inside = x :: rest) {e : Scheduled SystemEvent}
    (hts : e.ts = x.2 + work.tc)
    (huid : e.uid = work.arrivals.length + 1 + line.done.length)
    (hevent : e.event = .central (.attemptFlowMod (admission stdHash x).packetIn)) :
    ∃ w', fire stdHash work.tc e w = .ok w' ∧
      Tracks stdHash work (line.leave arrivalTime (seconds work.tc) x rest) w' := by
  have hx : x ∈ line.inside := hinside ▸ List.mem_cons_self
  obtain ⟨e', he'⟩ : ∃ e' : Scheduled FlowTableEvent,
      e' = ⟨e.ts, e.uid, .attemptFlowMod (admission stdHash x).packetIn⟩ := ⟨_, rfl⟩
  have hts' : e'.ts = x.2 + work.tc := he' ▸ hts
  have huid' : e'.uid = work.arrivals.length + 1 + line.done.length := he' ▸ huid
  have hdraws : (takeCentral e' w).env.central.draws (generatedPrefix x.1) % 6 = 3 := by
    show w.env.central.draws (generatedPrefix x.1) % 6 = 3
    rw [h.tables.drawsInside x hx]
  obtain ⟨w', hok, happlies⟩ := applies_attemptFlowMod
    (h.ready_leave hline hinside e' hts') (m := (admission stdHash x).packetIn) rfl
    (h.tables.resident x hx) (h.measures.resident x hx) hdraws
  refine ⟨w', ?_, h.queues.leave hinside hts' huid' happlies,
    h.tables.leave hline hinside happlies, h.measures.leave hline hinside hts' happlies, ?_⟩
  · rw [fire, hevent, ← hok]
    subst he'
    rfl
  · have hcounts := h.counts.leave happlies
    rw [hinside] at hcounts
    rw [show (line.leave arrivalTime (seconds work.tc) x rest).inside = rest from rfl,
      show (line.leave arrivalTime (seconds work.tc) x rest).done = line.done ++ [x] from rfl,
      List.length_append, List.length_singleton, Nat.add_assoc, Nat.add_comm 1]
    exact hcounts

end Statim.Occupancy
