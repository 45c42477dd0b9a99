import Mathlib.Algebra.Order.Archimedean.Real.Basic
import Mathlib.Algebra.Order.Floor.Semiring
import Mathlib.Data.Rat.Cast.Order
import Statim.Occupancy.Residence
import Statim.Occupancy.Runs

/-!
# Agreement of the two occupancies

The area and the high-water mark that the experiment accumulates are those that
`verify_residence` recomputes from its samples.  Both are facts about the residences: the
area is the integral of the number of resident prefixes, and the peak is the largest number
of closed residences that share a time.
-/

namespace Statim.Occupancy

open Support

variable {stdHash : Bytes → Nat} {work : Workload} {line : Line} {w : ExperimentWorld}
  {x : UInt64 × Nat} {t seed : Nat}

/-! ## At a time of the run -/

theorem LineInv.now_le (h : LineInv work line) : line.now ≤ seconds work.horizon := by
  refine h.last _ (seconds_nonneg _) fun x hx => ?_
  have hlast := le_lastArrival hx
  rw [arrivalTime, ← seconds_add, seconds_le_iff]
  exact Nat.add_le_add_right hlast work.tc

theorem Tracks.now_le (h : Tracks stdHash work line w) (hline : LineInv work line) :
    w.clock.now ≤ work.horizon := by
  rw [← seconds_le_iff, h.queues.now]
  exact hline.now_le

/-- Stopping the run leaves the controllers alone. -/
theorem Tables.halt (h : Tables work.tc line w) (hnow : w.clock.now ≤ work.horizon) :
    Tables work.tc line (halted work w) where
  leaseFree := h.leaseFree.elapse plain_temporaryConfig rfl rfl (hnow.trans (Nat.le_succ _))
  size := h.size
  resident := h.resident
  vacant := h.vacant
  unseen := h.unseen
  drawsInside := h.drawsInside
  drawsAhead := h.drawsAhead

/-- Wherever a run ends, the temporary FIB holds the prefixes inside the line, and keeps
them as long as the time points last. -/
theorem tables_of_run {limit : WithTop Nat} (hline : LineInv work line)
    (h : Pauses stdHash work limit line w ∨ Stops stdHash work line w) :
    Tables work.tc line w ∧ (line.inside ≠ [] → (w.clock.now : Int) < timePointMax) := by
  rcases h with h | ⟨hend, w₀, h, rfl⟩
  · exact ⟨h.tracks.tables, fun _ => lt_timePointMax (h.tracks.now_le hline)⟩
  · exact ⟨h.tables.halt (h.now_le hline), fun hinside => absurd hend.1 hinside⟩

theorem Tables.resident_iff (h : Tables work.tc line w) (hline : LineInv work line)
    (hnow : line.inside ≠ [] → (w.clock.now : Int) < timePointMax) (hx : x ∈ work.arrivals) :
    Occupancy.resident w x.1 = true ↔ x ∈ line.inside := by
  constructor
  · intro hresident
    by_contra hout
    have hapart : ∀ y ∈ line.inside, generatedPrefix y.1 ≠ generatedPrefix x.1 := by
      intro y hy heq
      have hyx := List.inj_on_of_nodup_map work.nodup (hline.mem_inside hy) hx
        (generatedPrefix_inj.mp heq)
      exact hout (hyx ▸ hy)
    have hnone := h.leaseFree.findExact_isNone (h.vacant _ hapart)
    rw [Occupancy.resident, ← Option.not_isNone, hnone] at hresident
    cases hresident
  · intro hinside
    exact h.leaseFree.findExact_isSome (hnow (List.ne_nil_of_mem hinside)) (h.resident x hinside)

/-- A run up to `t` has made the steps of the line up to `t`. -/
theorem settled_of_run (hwithin : Within (WithTop.some t) line)
    (h : Pauses stdHash work (WithTop.some t) line w ∨ Stops stdHash work line w) :
    DelayLine.Settled arrivalTime (seconds work.tc) line (seconds t) := by
  refine ⟨hwithin t rfl, ?_, ?_⟩
  · intro x hx
    rcases h with h | h
    · rw [arrivalTime, ← seconds_add, seconds_lt_iff]
      exact WithTop.coe_lt_coe.mp (h.inside x hx)
    · rw [h.finished.1] at hx
      exact absurd hx List.not_mem_nil
  · intro x hx
    rcases h with h | h
    · exact seconds_lt_iff.mpr (WithTop.coe_lt_coe.mp (h.ahead x hx))
    · rw [h.finished.2] at hx
      exact absurd hx List.not_mem_nil

/-- Nothing that a run up to `t` leaves in the queue is due at `t`. -/
theorem stopped_or_later (hline : LineInv work line)
    (h : Pauses stdHash work (WithTop.some t) line w ∨ Stops stdHash work line w) :
    w.env.members.stopped = true ∨ ∀ e ∈ queue w, t < e.ts := by
  rcases h with h | ⟨-, w₀, -, rfl⟩
  · refine Or.inr fun e he => ?_
    rcases h.tracks.mem_queue hline he with ⟨y, hy, hts, -⟩ | ⟨hts, -⟩ | ⟨y, hy, hts, -⟩
    · exact hts ▸ WithTop.coe_lt_coe.mp (h.ahead y hy)
    · exact hts ▸ WithTop.coe_lt_coe.mp h.stop
    · exact hts ▸ WithTop.coe_lt_coe.mp (h.inside y hy)
  · exact Or.inl rfl

theorem mem_inside_iff (hline : LineInv work line)
    (hsettled : DelayLine.Settled arrivalTime (seconds work.tc) line (seconds t))
    (hx : x ∈ work.arrivals) : x ∈ line.inside ↔ x.2 ≤ t ∧ t < x.2 + work.tc := by
  rw [hline.mem_inside_iff hsettled hx, arrivalTime, ← seconds_add, seconds_le_iff,
    seconds_lt_iff]

/-- The residences of a workload, over real time. -/
noncomputable def Workload.residences (work : Workload) : List (Span ℝ) :=
  work.arrivals.map fun x => ⟨(seconds x.2 : ℝ), (seconds (x.2 + work.tc) : ℝ)⟩

theorem occupancy_eq_countP (stdHash : Bytes → Nat) (work : Workload) (t : Nat) :
    occupancy stdHash work t =
      work.arrivals.countP fun x => decide (x.2 ≤ t ∧ t < x.2 + work.tc) := by
  obtain ⟨line, w, hok, hline, hwithin, hend⟩ := exists_run stdHash work (WithTop.some t)
  obtain ⟨htables, hnow⟩ := tables_of_run hline hend
  have hsettled := settled_of_run hwithin hend
  have hrun : simulate stdHash work.tc (WithTop.some t) (2 * work.arrivals.length + 1)
      (start work) = .ok w := hok 0
  rw [occupancy, hrun]
  refine List.countP_congr fun x hx => ?_
  rw [htables.resident_iff hline hnow hx, mem_inside_iff hline hsettled hx, decide_eq_true_iff]

/-- The occupancy is the size of the temporary FIB. -/
theorem fibSize_of_run (htables : Tables work.tc line w) (hline : LineInv work line)
    (hsettled : DelayLine.Settled arrivalTime (seconds work.tc) line (seconds t)) :
    w.ctl.fibSize = occupancy stdHash work t := by
  rw [LocalRouteController.fibSize, htables.size, hline.length_inside hsettled,
    occupancy_eq_countP, Span.active, List.countP_map]
  refine List.countP_congr fun x _ => ?_
  rw [Function.comp_apply, decide_eq_true_iff, decide_eq_true_iff, DelayLine.span, arrivalTime,
    ← seconds_add, seconds_le_iff, seconds_lt_iff]

/-! ## At the end of the run -/

theorem isEmpty_of_vacant {m : Std.TreeMap Name (UInt64 × ℚ)} (h : ∀ p : Name, m[p]? = none) :
    m.isEmpty = true := by
  rw [Std.TreeMap.isEmpty_iff_forall_not_mem]
  intro p hp
  rw [Std.TreeMap.mem_iff_isSome_getElem?, h p] at hp
  cases hp

/-- The numbers of a run that has stopped. -/
structure Measured (work : Workload) (line : Line) (w : ExperimentWorld) : Prop where
  observed : w.env.members.lastObservedSize = 0
  transition : w.env.members.lastTransition ≤ seconds work.horizon
  highWater : (sweep line.history).2 = w.env.members.highWater
  area : w.env.members.area = work.arrivals.length * seconds work.tc
  samples : w.env.members.samples = work.arrivals.map (sampleOf work.tc)
  empty : w.ctl.fibSize = 0
  arrivals : w.env.members.arrivals.isEmpty = true
  counts : Counts work.arrivals.length work.arrivals.length w
  stopped : w.env.members.stopped = true

theorem Stops.measured (h : Stops stdHash work line w) (hline : LineInv work line) :
    Measured work line w := by
  obtain ⟨hend, w₀, htracks, rfl⟩ := h
  have hdone := hline.done_eq hend
  have hmeasures := htracks.measures
  have hcounts := htracks.counts
  rw [hdone, hend.1, List.length_nil, Nat.add_zero] at hcounts
  constructor
  case observed =>
    refine hmeasures.observed.trans ?_
    rw [hend.1, List.length_nil]
  case transition => exact hmeasures.transition.trans_le hline.now_le
  case highWater => exact hmeasures.highWater
  case area =>
    refine hmeasures.area.trans ?_
    rw [hline.area_eq hend, nsmul_eq_mul]
  case samples =>
    refine hmeasures.samples.trans ?_
    rw [hdone]
  case empty =>
    refine htracks.tables.size.trans ?_
    rw [hend.1, List.length_nil]
  case arrivals =>
    refine isEmpty_of_vacant fun p => hmeasures.vacant p fun y hy => ?_
    rw [hend.1] at hy
    exact absurd hy List.not_mem_nil
  case counts => exact { hcounts with }
  case stopped => rfl

/-- The world that `Finish` leaves. -/
def finished (work : Workload) (w : ExperimentWorld) : ExperimentWorld :=
  update (accounted (seconds work.horizon)) w

/-- `Finish` accounts for an empty temporary FIB only. -/
theorem Measured.finished (h : Measured work line w) :
    Measured work line (finished work w) where
  observed := h.observed
  transition := le_refl _
  highWater := h.highWater
  area := by
    rw [← h.area]
    show w.env.members.area + (w.env.members.lastObservedSize : ℚ) * _ = _
    rw [h.observed, Nat.cast_zero, zero_mul, add_zero]
  samples := h.samples
  empty := h.empty
  arrivals := h.arrivals
  counts := { h.counts with }
  stopped := h.stopped

theorem Measured.finish_eq_ok (h : Measured work line w) :
    finish (seconds work.horizon) work.arrivals.length w = .ok (Occupancy.finished work w) := by
  have hafter := h.finished
  have haccount : accountUntil (seconds work.horizon) w = .ok (Occupancy.finished work w) :=
    accountUntil_eq_ok h.transition
  have hsize : verifyRealSize "at finish" (Occupancy.finished work w) = .ok () := by
    rw [verifyRealSize, require_eq_ok, decide_eq_true_iff, hafter.observed, hafter.empty]
  have hempty : (decide ((Occupancy.finished work w).ctl.fibSize = 0) &&
      (Occupancy.finished work w).env.members.arrivals.isEmpty) = true := by
    rw [hafter.empty, hafter.arrivals]
    rfl
  have hlength : decide ((Occupancy.finished work w).env.members.samples.length =
      work.arrivals.length) = true := by
    rw [hafter.samples, List.length_map, decide_eq_true_iff]
  have hcounts : countersConsistent work.arrivals.length (Occupancy.finished work w) = true := by
    have h := hafter.counts
    exact decide_eq_true ⟨h.traceUpdatesAccepted, h.tempUpdates, h.controlPackets,
      h.syncCompletions, h.controllerRetries, h.temporaryRouteWithdrawals, h.packetIns,
      h.flowModsApplied, h.syncAcksDropped, h.controlRequestsObserved, h.flowModsObserved,
      h.syncCompleteCallbacks, h.insertLookupChecks, h.deleteLookupChecks⟩
  simp only [finish, haccount, bind, Except.bind, hsize, require, hempty, hlength, hcounts, if_true]
  rfl

/-- The summary of a run. -/
def summaryOf (seed : Nat) (work : Workload) (w : ExperimentWorld) : Summary where
  seed := seed
  tc := seconds work.tc
  arrivalCount := work.arrivals.length
  horizon := seconds work.horizon
  highWater := w.env.members.highWater
  timeWeightedMean := w.env.members.area / seconds work.horizon
  occupancyArea := w.env.members.area

theorem Measured.summarize_eq_ok (h : Measured work line w) (seed : Nat) :
    summarize seed work w = .ok (summaryOf seed work w) := by
  have herror : decide (|w.env.members.area - work.arrivals.length * seconds work.tc| ≤
      max (1 / 10 ^ 8) (work.arrivals.length * seconds work.tc / 10 ^ 10)) = true := by
    rw [h.area, sub_self, abs_zero, decide_eq_true_iff]
    exact le_max_of_le_left (by norm_num)
  exact (require_bind herror _ _).trans rfl

/-! ## What the analysis recomputes -/

theorem map_span_sampleOf (work : Workload) :
    (work.arrivals.map (sampleOf work.tc)).map Sample.span =
      work.arrivals.map (DelayLine.span arrivalTime (seconds work.tc)) := by
  rw [List.map_map]
  refine List.map_congr_left fun x _ => ?_
  rw [Function.comp_apply, Sample.span, sampleOf, DelayLine.span, arrivalTime, seconds_add]

theorem sound_sampleOf (tc : Nat) (x : UInt64 × Nat) : (sampleOf tc x).Sound :=
  ⟨seconds_le_iff.mpr (Nat.le_add_right _ _), rfl⟩

theorem residence_sampleOf (tc : Nat) (x : UInt64 × Nat) :
    (sampleOf tc x).residence = seconds tc := by
  rw [sampleOf, seconds_add, add_sub_cancel_left]

theorem Measured.confirms (h : Measured work line w) (seed : Nat) :
    Confirms w.env.members.samples line.history (summaryOf seed work w) where
  count := by
    rw [h.samples, List.length_map]
    rfl
  peak := h.highWater
  area := by
    have hresidence : work.arrivals.map (Sample.residence ∘ sampleOf work.tc) =
        work.arrivals.map fun _ => seconds work.tc :=
      List.map_congr_left fun x _ => residence_sampleOf work.tc x
    rw [h.samples, List.map_map, hresidence, List.map_const', List.sum_replicate, nsmul_eq_mul]
    exact h.area.symm
  horizon := by
    have hpos : 0 < work.horizon := Nat.lt_of_lt_of_le work.tc_pos (Nat.le_add_left _ _)
    exact ((seconds_nonneg 0).trans_lt (seconds_lt_iff.mpr hpos)).ne'
  mean := rfl
  delay := by
    rw [h.samples]
    intro s hs
    obtain ⟨x, -, rfl⟩ := List.mem_map.mp hs
    exact residence_sampleOf work.tc x

/-! ## Integral and peak -/

theorem Workload.residences_eq (work : Workload) :
    work.residences = (work.arrivals.map (DelayLine.span arrivalTime (seconds work.tc))).map
      fun s => (⟨(s.start : ℝ), (s.stop : ℝ)⟩ : Span ℝ) := by
  rw [List.map_map]
  refine List.map_congr_left fun x _ => ?_
  rw [Function.comp_apply, DelayLine.span, arrivalTime, ← seconds_add]

/-- The occupancy counts the residences that are going on. -/
theorem occupancy_eq_active (stdHash : Bytes → Nat) (work : Workload) {s : ℝ} (hs : 0 ≤ s) :
    occupancy stdHash work ⌊s * 10 ^ 9⌋₊ = Span.active work.residences s := by
  have hpos : (0 : ℝ) ≤ s * 10 ^ 9 := mul_nonneg hs (by norm_num)
  have hseconds : ∀ t : Nat, ((seconds t : ℚ) : ℝ) = t / 10 ^ 9 := fun t => by
    rw [seconds]
    push_cast
    rfl
  rw [occupancy_eq_countP, Span.active, Workload.residences, List.countP_map]
  refine List.countP_congr fun x _ => ?_
  rw [Function.comp_apply, decide_eq_true_iff, decide_eq_true_iff, Nat.le_floor_iff hpos,
    Nat.floor_lt hpos, hseconds, hseconds, div_le_iff₀ (by norm_num), lt_div_iff₀ (by norm_num)]

open MeasureTheory

/-- Integrating the number of resident prefixes gives the sum of the residences. -/
theorem integral_occupancy (stdHash : Bytes → Nat) (work : Workload) :
    IntervalIntegrable (fun s : ℝ => (occupancy stdHash work ⌊s * 10 ^ 9⌋₊ : ℝ)) volume 0
        (seconds work.horizon) ∧
      ∫ s in (0 : ℝ)..(seconds work.horizon), (occupancy stdHash work ⌊s * 10 ^ 9⌋₊ : ℝ) =
        work.arrivals.length * (seconds work.tc : ℝ) := by
  have hhorizon : (0 : ℝ) ≤ (seconds work.horizon : ℝ) := Rat.cast_nonneg.mpr (seconds_nonneg _)
  have hspans : ∀ s ∈ work.residences,
      0 ≤ s.start ∧ s.start ≤ s.stop ∧ s.stop ≤ (seconds work.horizon : ℝ) := by
    intro s hs
    obtain ⟨x, hx, rfl⟩ := List.mem_map.mp hs
    have hlast := le_lastArrival hx
    refine ⟨Rat.cast_nonneg.mpr (seconds_nonneg _), ?_, ?_⟩
    · exact Rat.cast_le.mpr (seconds_le_iff.mpr (Nat.le_add_right _ _))
    · exact Rat.cast_le.mpr (seconds_le_iff.mpr (Nat.add_le_add_right hlast _))
  have hactive : ∀ s ∈ Set.uIcc (0 : ℝ) (seconds work.horizon),
      (Span.active work.residences s : ℝ) = (occupancy stdHash work ⌊s * 10 ^ 9⌋₊ : ℝ) := by
    intro s hs
    rw [Set.uIcc_of_le hhorizon] at hs
    rw [occupancy_eq_active stdHash work hs.1]
  have hlengths : (work.residences.map fun s => s.stop - s.start).sum =
      work.arrivals.length * (seconds work.tc : ℝ) := by
    have hlength : work.arrivals.map ((fun s : Span ℝ => s.stop - s.start) ∘ fun x =>
        ⟨(seconds x.2 : ℝ), (seconds (x.2 + work.tc) : ℝ)⟩) =
        work.arrivals.map fun _ => (seconds work.tc : ℝ) := by
      refine List.map_congr_left fun x _ => ?_
      rw [Function.comp_apply, seconds_add, Rat.cast_add, add_sub_cancel_left]
    rw [Workload.residences, List.map_map, hlength, List.map_const', List.sum_replicate,
      nsmul_eq_mul]
  obtain ⟨hintegrable, hintegral⟩ := Span.integral_active hspans
  refine ⟨hintegrable.congr fun s hs => hactive s (Set.uIoc_subset_uIcc hs), ?_⟩
  rw [← intervalIntegral.integral_congr hactive, hintegral, hlengths]

/-- The peak of the sweep is the largest number of residences that share a time. -/
theorem isGreatest_highWater (hline : LineInv work line) (hend : DelayLine.Finished line)
    (hmeasured : Measured work line w) :
    IsGreatest (Set.range fun s : ℝ => (Span.overlap work.residences s : ℤ))
      w.env.members.highWater := by
  have hspans : ∀ s ∈ work.residences, s.start ≤ s.stop := by
    intro s hs
    obtain ⟨x, -, rfl⟩ := List.mem_map.mp hs
    exact Rat.cast_le.mpr (seconds_le_iff.mpr (Nat.le_add_right _ _))
  have hsweeps := (hline.sweeps hend).map (f := fun q : ℚ => (q : ℝ)) Rat.cast_strictMono
  rw [← work.residences_eq] at hsweeps
  have hpeak := hsweeps.isGreatest_peak hspans
  rwa [sweep_map, hmeasured.highWater] at hpeak

/-! ## Agreement -/

/-- What the experiment measures of a workload, what the analysis recomputes from its
samples, and what happened. -/
structure Agreement (stdHash : Bytes → Nat) (seed : Nat) (work : Workload)
    (w : ExperimentWorld) (summary : Summary) : Prop where
  /-- The experiment raises no error. -/
  run : ∀ extra,
    runMain stdHash seed (2 * work.arrivals.length + 1 + extra) work = .ok (w, summary)
  stopped : w.env.members.stopped = true
  empty : w.ctl.fibSize = 0
  /-- After the events up to `t`, the prefixes that are resident are those that arrived at
  most `tc` ago. -/
  residence : ∀ t, ∃ v,
    (∀ extra, simulate stdHash work.tc (WithTop.some t) (2 * work.arrivals.length + 1 + extra)
      (start work) = .ok v) ∧
    (v.env.members.stopped = true ∨ ∀ e ∈ queue v, t < e.ts) ∧
    v.ctl.fibSize = occupancy stdHash work t ∧
    ∀ x ∈ work.arrivals, resident v x.1 = true ↔ x.2 ≤ t ∧ t < x.2 + work.tc
  highWater : summary.highWater = w.env.members.highWater
  area : summary.occupancyArea = w.env.members.area
  recomputed : ∃ reading,
    (w.env.members.samples.map (Sample.row seed)).foldlM (readRow summary) {} = .ok reading ∧
    recompute reading = ⟨0, summary.highWater, summary.occupancyArea⟩
  verified : verifyResidence (w.env.members.samples.map (Sample.row seed)) summary = .ok
    { name := "raw_residence_reconstruction"
      samples := work.arrivals.length
      checks := ⟨true, true, true, true, true⟩
      deterministicDelayObserved := true }
  integrable : IntervalIntegrable
    (fun s : ℝ => (occupancy stdHash work ⌊s * 10 ^ 9⌋₊ : ℝ)) volume 0 (seconds work.horizon)
  integral : ∫ s in (0 : ℝ)..(seconds work.horizon),
    (occupancy stdHash work ⌊s * 10 ^ 9⌋₊ : ℝ) = (summary.occupancyArea : ℝ)
  peak : IsGreatest (Set.range fun s : ℝ => (Span.overlap work.residences s : ℤ))
    summary.highWater

/-- The measured and the recomputed occupancy of every workload agree. -/
theorem occupancy_agrees (stdHash : Bytes → Nat) (seed : Nat) (work : Workload) :
    ∃ w summary, Agreement stdHash seed work w summary := by
  obtain ⟨line, v, hok, hline, -, hreached⟩ := exists_run stdHash work ⊤
  have hstops : Stops stdHash work line v := by
    rcases hreached with hpauses | hstops
    · exact absurd hpauses.stop not_top_lt
    · exact hstops
  have hmeasured := hstops.measured hline
  have hfinished := hmeasured.finished
  obtain ⟨w, hw⟩ : ∃ w, w = finished work v := ⟨_, rfl⟩
  rw [← hw] at hfinished
  have hseed : (summaryOf seed work w).seed = seed := rfl
  have hsound : ∀ s ∈ w.env.members.samples, s.Sound := by
    rw [hfinished.samples]
    intro s hs
    obtain ⟨x, -, rfl⟩ := List.mem_map.mp hs
    exact sound_sampleOf work.tc x
  have hnodup : (w.env.members.samples.map Sample.id).Nodup := by
    rw [hfinished.samples, List.map_map]
    exact work.nodup
  have hswept : Span.Sweeps (w.env.members.samples.map Sample.span) line.history := by
    rw [hfinished.samples, map_span_sampleOf]
    exact hline.sweeps hstops.finished
  obtain ⟨reading, hread, hrecompute, hverified⟩ :=
    verifyResidence_eq_ok hseed hsound hnodup hswept (hfinished.confirms seed)
  obtain ⟨hintegrable, hintegral⟩ := integral_occupancy stdHash work
  refine ⟨w, summaryOf seed work w, ?_⟩
  constructor
  case run =>
    intro extra
    simp only [runMain, hok, hmeasured.finish_eq_ok, ← hw, hfinished.summarize_eq_ok, bind,
      Except.bind]
    rfl
  case stopped => exact hfinished.stopped
  case empty => exact hfinished.empty
  case residence =>
    intro t
    obtain ⟨line', v', hok', hline', hwithin', hend'⟩ :=
      exists_run stdHash work (WithTop.some t)
    obtain ⟨htables, hnow⟩ := tables_of_run hline' hend'
    have hsettled := settled_of_run hwithin' hend'
    refine ⟨v', hok', stopped_or_later hline' hend', fibSize_of_run htables hline' hsettled,
      fun x hx => ?_⟩
    rw [htables.resident_iff hline' hnow hx, mem_inside_iff hline' hsettled hx]
  case highWater => rfl
  case area => rfl
  case recomputed => exact ⟨reading, hread, hrecompute⟩
  case verified =>
    rw [hverified, hfinished.samples, List.length_map]
  case integrable => exact hintegrable
  case integral =>
    rw [hintegral, show (summaryOf seed work w).occupancyArea = _ from hfinished.area,
      Rat.cast_mul, Rat.cast_natCast]
  case peak => exact isGreatest_highWater hline hstops.finished hfinished

/-- The arrival at time 3 comes before the two completions, so the peak is 3. -/
theorem occupancy_agrees_sampleWorkload :
    ∃ w summary, Agreement (fun _ => 0) 1 sampleWorkload w summary ∧
      (summary.highWater, summary.occupancyArea) = (3, 9 / 1000000000) := by
  obtain ⟨w, summary, h⟩ := occupancy_agrees (fun _ => 0) 1 sampleWorkload
  refine ⟨w, summary, h, ?_⟩
  have hrun : (runMain (fun _ => 0) 1 7 sampleWorkload).toOption.map
      (fun r => (r.2.highWater, r.2.occupancyArea)) = some (3, 9 / 1000000000) := by
    decide +kernel
  have hresult : runMain (fun _ => 0) 1 7 sampleWorkload = .ok (w, summary) := h.run 0
  rw [hresult] at hrun
  exact Option.some.inj hrun

end Statim.Occupancy
