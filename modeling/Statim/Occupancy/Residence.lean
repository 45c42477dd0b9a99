import Statim.Occupancy.Experiment
import Statim.Support.Spans

/-!
# Recomputing the occupancy

`verify_residence` reads the residence samples of a run and recomputes its occupancy: the
integral as the sum of the residences, and the peak by a sweep over the sorted arrivals and
completions.  Numbers are rational here, so that sums and comparisons are exact.
-/

namespace Statim.Occupancy

open Support SweepEvent

/-- A row of the residence file; `none` is a number that is missing or not finite. -/
structure ResidenceRow where
  seed : Nat
  prefixId : UInt64
  arrival : Option ℚ
  completion : Option ℚ
  residence : Option ℚ
deriving DecidableEq, Repr

/-- The row that `main` writes for a sample. -/
def Sample.row (seed : Nat) (s : Sample) : ResidenceRow where
  seed := seed
  prefixId := s.id
  arrival := some s.arrival
  completion := some s.completion
  residence := some s.residence

/-- `math.isclose`. -/
def isclose (a b relTol absTol : ℚ) : Bool :=
  decide (a = b ∨ |b - a| ≤ |relTol * b| ∨ |b - a| ≤ |relTol * a| ∨ |b - a| ≤ absTol)

theorem isclose_self (a relTol absTol : ℚ) : isclose a a relTol absTol = true :=
  decide_eq_true (Or.inl rfl)

/-- What the rows read so far contain. -/
structure Reading where
  ids : List UInt64 := []
  events : List (SweepEvent ℚ) := []
  durations : List ℚ := []

/-- One row of the file. -/
def readRow (summary : Summary) (reading : Reading) (row : ResidenceRow) :
    Except String Reading :=
  match row.arrival, row.completion, row.residence with
  | some a, some b, some duration => do
    require (decide (row.prefixId ∉ reading.ids) && decide (row.seed = summary.seed))
      "Residence sample identities must be unique and match the run seed"
    require (decide (a ≤ b) && isclose (b - a) duration (1 / 10 ^ 8) (1 / 10 ^ 8))
      "Residence duration must match completion minus arrival"
    return {
      ids := reading.ids ++ [row.prefixId]
      events := reading.events ++ [arrival a, departure b]
      durations := reading.durations ++ [duration] }
  | _, _, _ => .error "Residence sample requires finite arrival/completion/residence"

/-- The recomputed occupancy. -/
structure Recomputed where
  active : ℤ
  peak : ℤ
  area : ℚ
deriving DecidableEq, Repr

/-- The loop over the sorted events, and the sum of the durations. -/
def recompute (reading : Reading) : Recomputed :=
  let swept := sweep (reading.events.mergeSort fun a b => decide (a ≤ b))
  { active := swept.1, peak := swept.2, area := reading.durations.sum }

structure ResidenceChecks where
  samplesMatchArrivalCount : Bool
  finalOccupancyEmpty : Bool
  peakMatchesSummary : Bool
  areaMatchesSummary : Bool
  meanMatchesSummary : Bool
deriving DecidableEq, Repr

namespace ResidenceChecks

/-- The checks under their names. -/
def entries (checks : ResidenceChecks) : List (String × Bool) :=
  [("samples_match_arrival_count", checks.samplesMatchArrivalCount),
    ("final_occupancy_empty", checks.finalOccupancyEmpty),
    ("peak_matches_summary", checks.peakMatchesSummary),
    ("area_matches_summary", checks.areaMatchesSummary),
    ("mean_matches_summary", checks.meanMatchesSummary)]

/-- `json.dumps`. -/
def dumps (checks : ResidenceChecks) : String :=
  "\x7b" ++ ", ".intercalate (checks.entries.map fun entry =>
    "\"" ++ entry.1 ++ "\": " ++ if entry.2 then "true" else "false") ++ "\x7d"

end ResidenceChecks

structure ResidenceObservation where
  name : String
  samples : Nat
  checks : ResidenceChecks
  deterministicDelayObserved : Bool
deriving DecidableEq, Repr

/-- `verify_residence`. -/
def verifyResidence (rows : List ResidenceRow) (summary : Summary) :
    Except String ResidenceObservation := do
  let reading ← rows.foldlM (readRow summary) {}
  let recomputed := recompute reading
  require (decide (summary.horizon ≠ 0)) "float division by zero"
  let checks : ResidenceChecks := {
    samplesMatchArrivalCount := decide (reading.ids.length = summary.arrivalCount)
    finalOccupancyEmpty := decide (recomputed.active = 0)
    peakMatchesSummary := decide (recomputed.peak = summary.highWater)
    areaMatchesSummary :=
      isclose recomputed.area summary.occupancyArea (1 / 10 ^ 8) (1 / 10 ^ 6)
    meanMatchesSummary := isclose (recomputed.area / summary.horizon) summary.timeWeightedMean
      (1 / 10 ^ 8) (1 / 10 ^ 7) }
  require (checks.entries.all Prod.snd) ("Residence reconstruction mismatch: " ++ checks.dumps)
  return {
    name := "raw_residence_reconstruction"
    samples := reading.ids.length
    checks := checks
    deterministicDelayObserved := reading.durations.all fun value =>
      isclose value summary.tc (1 / 10 ^ 8) (1 / 10 ^ 8) }

/-! ## Samples -/

/-- The span of a sample. -/
def Sample.span (s : Sample) : Span ℚ := ⟨s.arrival, s.completion⟩

/-- A sample whose residence is the time between its arrival and its completion. -/
structure Sample.Sound (s : Sample) : Prop where
  ordered : s.arrival ≤ s.completion
  residence : s.residence = s.completion - s.arrival

variable {seed : Nat} {summary : Summary} {samples : List Sample}

/-- The samples of a run are read without an error. -/
theorem foldlM_readRow (hseed : summary.seed = seed) (hsound : ∀ s ∈ samples, s.Sound)
    (hnodup : (samples.map Sample.id).Nodup) (reading : Reading)
    (hfresh : ∀ s ∈ samples, s.id ∉ reading.ids) :
    (samples.map (Sample.row seed)).foldlM (readRow summary) reading = .ok
      { ids := reading.ids ++ samples.map Sample.id
        events := reading.events ++ (samples.map Sample.span).flatMap Span.events
        durations := reading.durations ++ samples.map Sample.residence } := by
  induction samples generalizing reading with
  | nil => simp [pure, Except.pure]
  | cons s samples ih =>
      rw [List.forall_mem_cons] at hsound hfresh
      rw [List.map_cons, List.nodup_cons] at hnodup
      have hidentity : (decide (s.id ∉ reading.ids) && decide (seed = summary.seed)) = true := by
        simp [hfresh.1, hseed]
      have hduration : (decide (s.arrival ≤ s.completion) &&
          isclose (s.completion - s.arrival) s.residence (1 / 10 ^ 8) (1 / 10 ^ 8)) = true := by
        rw [hsound.1.residence, isclose_self, decide_eq_true hsound.1.ordered]
        rfl
      have hrow : readRow summary reading (s.row seed) = .ok
          { ids := reading.ids ++ [s.id]
            events := reading.events ++ s.span.events
            durations := reading.durations ++ [s.residence] } := by
        exact (require_bind hidentity _ _).trans ((require_bind hduration _ _).trans rfl)
      have hrest : ∀ s' ∈ samples, s'.id ∉ reading.ids ++ [s.id] := by
        intro s' hs' hmem
        rcases List.mem_append.mp hmem with hmem | hmem
        · exact hfresh.2 s' hs' hmem
        · rw [List.mem_singleton] at hmem
          exact hnodup.1 (hmem ▸ List.mem_map_of_mem hs')
      rw [List.map_cons, List.foldlM_cons, hrow]
      refine (ih hsound.2 hnodup.2 _ hrest).trans ?_
      simp [List.append_assoc]

/-- A summary that the samples bear out. -/
structure Confirms (samples : List Sample) (swept : List (SweepEvent ℚ)) (summary : Summary) :
    Prop where
  count : samples.length = summary.arrivalCount
  peak : (sweep swept).2 = summary.highWater
  area : (samples.map Sample.residence).sum = summary.occupancyArea
  horizon : summary.horizon ≠ 0
  mean : summary.timeWeightedMean = summary.occupancyArea / summary.horizon
  delay : ∀ s ∈ samples, s.residence = summary.tc

/-- Sound samples that confirm the summary are accepted, and give its numbers. -/
theorem verifyResidence_eq_ok {swept : List (SweepEvent ℚ)} (hseed : summary.seed = seed)
    (hsound : ∀ s ∈ samples, s.Sound) (hnodup : (samples.map Sample.id).Nodup)
    (hswept : Span.Sweeps (samples.map Sample.span) swept)
    (hconfirms : Confirms samples swept summary) :
    ∃ reading, (samples.map (Sample.row seed)).foldlM (readRow summary) {} = .ok reading ∧
      recompute reading = ⟨0, summary.highWater, summary.occupancyArea⟩ ∧
      verifyResidence (samples.map (Sample.row seed)) summary = .ok
        { name := "raw_residence_reconstruction"
          samples := samples.length
          checks := ⟨true, true, true, true, true⟩
          deterministicDelayObserved := true } := by
  have hread := foldlM_readRow hseed hsound hnodup {} fun s _ => List.not_mem_nil
  simp only [List.nil_append] at hread
  have hsorted : ((samples.map Sample.span).flatMap Span.events).mergeSort
      (fun a b => decide (a ≤ b)) = swept := by
    have hsweeps : Span.Sweeps (samples.map Sample.span)
        (((samples.map Sample.span).flatMap Span.events).mergeSort fun a b => decide (a ≤ b)) :=
      ⟨List.mergeSort_perm _ _, List.pairwise_mergeSort' (· ≤ ·) _⟩
    exact hsweeps.eq hswept
  have hrecompute : recompute
      { ids := samples.map Sample.id
        events := (samples.map Sample.span).flatMap Span.events
        durations := samples.map Sample.residence } =
      ⟨0, summary.highWater, summary.occupancyArea⟩ := by
    simp only [recompute, hsorted, hswept.active_eq_zero, hconfirms.peak, hconfirms.area]
  refine ⟨_, hread, hrecompute, ?_⟩
  have hdelay : ((samples.map Sample.residence).all fun value =>
      isclose value summary.tc (1 / 10 ^ 8) (1 / 10 ^ 8)) = true := by
    rw [List.all_map, List.all_eq_true]
    intro s hs
    rw [Function.comp_apply, hconfirms.delay s hs]
    exact isclose_self _ _ _
  simp only [verifyResidence, hread, bind, Except.bind, hrecompute, List.length_map,
    hconfirms.count, hconfirms.mean, isclose_self, hdelay, hconfirms.horizon, decide_true,
    ResidenceChecks.entries, require, List.all_cons, List.all_nil, Bool.and_true, if_true,
    ne_eq, not_false_eq_true]
  rfl

end Statim.Occupancy
