import Statim.Experiments.Matrix

/-!
# Points of the axes

Which axes an experiment has depends on its scenario and on the system.  A point has one
entry of each axis that applies, and the runs of an experiment are exactly those of its
points, one for every seed.
-/

namespace Statim.Experiments

open Support Parameter FloatArithmetic

variable {φ : Type} [FloatArithmetic φ]

/-- The kinds of points: a scenario and a system. -/
inductive Kind
  | kite | statim | path | occupancy
  deriving DecidableEq

namespace Kind

/-- The program that runs the points. -/
def target : Kind → String
  | kite => "kite-grid"
  | statim => "statim-grid"
  | path => "statim-path"
  | occupancy => "temporary-fib-occupancy"

/-- The names of the options. -/
def optionKeys : Kind → List String
  | kite =>
      commonOptions.map (·.2) ++ ["consumerRetransmissions", "enableInterestReforwarding", "run"]
  | statim =>
      commonOptions.map (·.2) ++ ["consumerRetransmissions", "enableInterestReforwarding",
        "enableTemporaryFib", "controllerDelay", "statefulDelay"] ++ statimOptions.map (·.2) ++
      ["controlLossRate", "controllerRetryTimeout", "run"]
  | path =>
      commonOptions.map (·.2) ++ ["consumerRetransmissions", "enableInterestReforwarding",
        "enableTemporaryFib", "controllerDelay", "statefulDelay", "tracePathHops",
        "consumerJoin", "run"]
  | occupancy => ["lambda", "Tc", "burst", "arrivalCount", "seed"]

/-- The names of the recorded parameters. -/
def parameterKeys : Kind → List String
  | kite =>
      commonOptions.map (·.1.name) ++ ["scenario", "system", "topology",
        "consumer_retransmissions", "interest_reforwarding", "seed"]
  | statim =>
      commonOptions.map (·.1.name) ++ ["scenario", "system", "topology",
        "consumer_retransmissions", "interest_reforwarding", "temporary_forwarding",
        "controller_delay_s", "stateful_delay_us"] ++ statimOptions.map (·.1.name) ++
      ["completion_notice_loss", "controller_retry_timeout_s", "seed"]
  | path =>
      commonOptions.map (·.1.name) ++ ["scenario", "system", "topology",
        "consumer_retransmissions", "interest_reforwarding", "temporary_forwarding",
        "controller_delay_s", "stateful_delay_us", "interest_reforwarding_limit",
        "generation_guard", "controller_retry_limit", "controller_retry_timeout_s",
        "completion_notice_loss", "trace_path_hops", "consumer_join", "seed"]
  | occupancy => ["scenario", "system", "seed", "arrival_rate_per_s", "controller_delay_s",
      "initial_burst", "arrival_count"]

theorem nodup_optionKeys (kind : Kind) : kind.optionKeys.Nodup := by
  cases kind <;> decide

theorem nodup_parameterKeys (kind : Kind) : kind.parameterKeys.Nodup := by
  cases kind <;> decide

/-- Option names end before the equals sign of their argument. -/
theorem plain_optionKeys (kind : Kind) :
    ∀ key ∈ kind.optionKeys, '=' ∉ key.toList ∧ key ≠ "outputPrefix" := by
  cases kind <;> decide

theorem invocation_notMem (kind : Kind) : "invocation" ∉ kind.parameterKeys := by
  cases kind <;> decide

end Kind

/-- One entry for every axis of the scenario and the system. -/
inductive Point (φ : Type)
  | kite (retransmit reforward : Scalar φ)
  | statim (retransmit reforward temporary delay processing loss : Scalar φ)
  | path (retransmit reforward temporary delay processing hops join : Scalar φ)
  | occupancy (rate delay burst : Scalar φ)

namespace Point

/-- The point lies on the axes of these settings. -/
def On (settings : Settings φ) : Point φ → Prop
  | kite retransmit reforward =>
      (settings scenario).scalar = .str "handover" ∧
      .str "nfd-kite" ∈ (settings systems).values ∧
      retransmit ∈ (settings consumerRetransmissions).values ∧
      reforward ∈ (settings interestReforwarding).values
  | statim retransmit reforward temporary delay processing loss =>
      (settings scenario).scalar = .str "handover" ∧
      .str "statim" ∈ (settings systems).values ∧
      retransmit ∈ (settings consumerRetransmissions).values ∧
      reforward ∈ (settings interestReforwarding).values ∧
      temporary ∈ (settings temporaryForwarding).values ∧
      delay ∈ (settings controllerDelay).values ∧
      processing ∈ (settings statefulDelay).values ∧
      loss ∈ (settings completionNoticeLoss).values
  | path retransmit reforward temporary delay processing hops join =>
      (settings scenario).scalar = .str "path" ∧
      retransmit ∈ (settings consumerRetransmissions).values ∧
      reforward ∈ (settings interestReforwarding).values ∧
      temporary ∈ (settings temporaryForwarding).values ∧
      delay ∈ (settings controllerDelay).values ∧
      processing ∈ (settings statefulDelay).values ∧
      hops ∈ (settings tracePathHops).values ∧
      join ∈ (settings consumerJoin).values
  | occupancy rate delay burst =>
      (settings scenario).scalar = .str "occupancy" ∧
      rate ∈ (settings arrivalRate).values ∧
      delay ∈ (settings controllerDelay).values ∧
      burst ∈ (settings initialBurst).values

/-- The kind of a point. -/
def kind : Point φ → Kind
  | kite .. => .kite
  | statim .. => .statim
  | path .. => .path
  | occupancy .. => .occupancy

/-- The options that every network point has. -/
def networkOptions (settings : Settings φ) (retransmit reforward : Scalar φ) :
    List (String × String) :=
  commonOptions.map (fun e => (e.2, number (settings e.1).scalar)) ++
  [("consumerRetransmissions", number retransmit),
    ("enableInterestReforwarding", number reforward)]

/-- The options of the local update path. -/
def localOptions (temporary delay processing : Scalar φ) : List (String × String) :=
  [("enableTemporaryFib", number temporary), ("controllerDelay", number delay),
    ("statefulDelay", number (statefulSeconds processing))]

/-- The options of a point and a seed. -/
def options (settings : Settings φ) (profile : Profile) (quick : Quick φ) (seed : ℤ) :
    Point φ → List (String × String)
  | kite retransmit reforward =>
      networkOptions settings retransmit reforward ++ [("run", toString seed)]
  | statim retransmit reforward temporary delay processing loss =>
      networkOptions settings retransmit reforward ++ localOptions temporary delay processing ++
      statimOptions.map (fun e => (e.2, number (settings e.1).scalar)) ++
      [("controlLossRate", number loss),
        ("controllerRetryTimeout", number (retryTimeout settings delay loss)),
        ("run", toString seed)]
  | path retransmit reforward temporary delay processing hops join =>
      networkOptions settings retransmit reforward ++ localOptions temporary delay processing ++
      [("tracePathHops", number hops), ("consumerJoin", join.toStr), ("run", toString seed)]
  | occupancy rate delay burst =>
      [("lambda", number rate), ("Tc", number delay), ("burst", toString burst.toInt),
        ("arrivalCount", toString (arrivals settings quick burst profile)),
        ("seed", toString seed)]

/-- The command line of a point and a seed. -/
def argv (settings : Settings φ) (profile : Profile) (quick : Quick φ) (seed : ℤ)
    (point : Point φ) : List String :=
  arguments (Dictionary.ofList (point.options settings profile quick seed))

/-! ## Recorded parameters -/

/-- The parameters that every network point records. -/
def networkParameters (settings : Settings φ) (system topology : String)
    (retransmit reforward : Scalar φ) : List (String × Scalar φ) :=
  commonOptions.map (fun e => (e.1.name, (settings e.1).scalar)) ++
  [("scenario", (settings scenario).scalar), ("system", .str system),
    ("topology", .str topology), ("consumer_retransmissions", retransmit),
    ("interest_reforwarding", reforward)]

/-- The parameters of the local update path. -/
def localParameters (temporary delay processing : Scalar φ) : List (String × Scalar φ) :=
  [("temporary_forwarding", temporary), ("controller_delay_s", delay),
    ("stateful_delay_us", processing)]

/-- The recorded parameters of a point and a seed. -/
def parameters (settings : Settings φ) (profile : Profile) (quick : Quick φ) (seed : ℤ) :
    Point φ → List (String × Scalar φ)
  | kite retransmit reforward =>
      networkParameters settings "nfd-kite" "six-router" retransmit reforward ++
      [("seed", .int seed)]
  | statim retransmit reforward temporary delay processing loss =>
      networkParameters settings "statim" "six-router" retransmit reforward ++
      localParameters temporary delay processing ++
      statimOptions.map (fun e => (e.1.name, (settings e.1).scalar)) ++
      [("completion_notice_loss", loss),
        ("controller_retry_timeout_s", retryTimeout settings delay loss), ("seed", .int seed)]
  | path retransmit reforward temporary delay processing hops join =>
      networkParameters settings "statim" "router-chain" retransmit reforward ++
      localParameters temporary delay processing ++
      [("interest_reforwarding_limit", .int 1000), ("generation_guard", .bool false),
        ("controller_retry_limit", .int 3), ("controller_retry_timeout_s", .int 0),
        ("completion_notice_loss", .int 0), ("trace_path_hops", hops), ("consumer_join", join),
        ("seed", .int seed)]
  | occupancy rate delay burst =>
      [("scenario", .str "occupancy"), ("system", .str "statim"), ("seed", .int seed),
        ("arrival_rate_per_s", rate), ("controller_delay_s", delay), ("initial_burst", burst),
        ("arrival_count", .int (arrivals settings quick burst profile))]

/-! ## Keys -/

theorem keys_options (settings : Settings φ) (profile : Profile) (quick : Quick φ) (seed : ℤ)
    (point : Point φ) :
    (point.options settings profile quick seed).map Prod.fst = point.kind.optionKeys := by
  cases point with
  | kite r f => rfl
  | statim r f t d p l => rfl
  | path r f t d p hops join => rfl
  | occupancy rate delay burst => rfl

theorem keys_parameters (settings : Settings φ) (profile : Profile) (quick : Quick φ) (seed : ℤ)
    (point : Point φ) :
    (point.parameters settings profile quick seed).map Prod.fst = point.kind.parameterKeys := by
  cases point with
  | kite r f => rfl
  | statim r f t d p l => rfl
  | path r f t d p hops join => rfl
  | occupancy rate delay burst => rfl

/-! ## Points and cells -/

/-- The system of a network point. -/
def system : Point φ → Scalar φ
  | kite .. => .str "nfd-kite"
  | _ => .str "statim"

/-- The cell of a network point. -/
def cell : Point φ → Cell φ
  | kite retransmit reforward => ⟨retransmit, reforward, .null, .null, .null, .null, .null, .null⟩
  | statim retransmit reforward temporary delay processing loss =>
      ⟨retransmit, reforward, temporary, delay, processing, loss, .null, .null⟩
  | path retransmit reforward temporary delay processing hops join =>
      ⟨retransmit, reforward, temporary, delay, processing, .null, hops, join⟩
  | occupancy .. => ⟨.null, .null, .null, .null, .null, .null, .null, .null⟩

/-- The run of a point and a seed. -/
def run (settings : Settings φ) (profile : Profile) (quick : Quick φ) (seed : ℤ) :
    Point φ → Run φ
  | occupancy rate delay burst =>
      occupancyRun rate delay burst (arrivals settings quick burst profile) seed
  | point => networkRun settings point.system point.cell seed

end Point

variable {settings : Settings φ} {profile : Profile} {quick : Quick φ} {seed : ℤ}

omit [FloatArithmetic φ] in
theorem mem_cells {isLocal : Bool} {cell : Cell φ} :
    cell ∈ cells settings isLocal ↔
      cell.retransmit ∈ (settings consumerRetransmissions).values ∧
      cell.reforward ∈ (settings interestReforwarding).values ∧
      cell.temporary ∈ axis settings temporaryForwarding isLocal ∧
      cell.delay ∈ axis settings controllerDelay isLocal ∧
      cell.processing ∈ axis settings statefulDelay isLocal ∧
      cell.loss ∈ axis settings completionNoticeLoss
        (isLocal && (settings scenario).scalar.isStr "handover") ∧
      cell.hops ∈ axis settings tracePathHops ((settings scenario).scalar.isStr "path") ∧
      cell.join ∈ axis settings consumerJoin ((settings scenario).scalar.isStr "path") := by
  simp only [cells, List.mem_flatMap, List.mem_map]
  constructor
  · rintro ⟨r, hr, f, hf, t, ht, d, hd, p, hp, l, hl, h, hh, j, hj, rfl⟩
    exact ⟨hr, hf, ht, hd, hp, hl, hh, hj⟩
  · rintro ⟨hr, hf, ht, hd, hp, hl, hh, hj⟩
    exact ⟨_, hr, _, hf, _, ht, _, hd, _, hp, _, hl, _, hh, _, hj, rfl⟩

omit [FloatArithmetic φ] in
@[simp] theorem axis_true (settings : Settings φ) (key : Parameter) :
    axis settings key true = (settings key).values := rfl

omit [FloatArithmetic φ] in
theorem mem_axis_false {key : Parameter} {x : Scalar φ} :
    x ∈ axis settings key false ↔ x = .null :=
  List.mem_singleton

/-- A network run belongs to a point. -/
theorem exists_point (h : Typed settings) {system : Scalar φ} {cell : Cell φ}
    (hscenario : (settings scenario).scalar.isStr "occupancy" = false)
    (hsystem : system ∈ (settings systems).values)
    (hcell : cell ∈ cells settings (system.isStr "statim")) :
    ∃ point : Point φ, point.On settings ∧
      point.run settings profile quick seed = networkRun settings system cell seed := by
  obtain ⟨r, f, t, d, p, l, hops, join⟩ := cell
  obtain ⟨hr, hf, ht, hd, hp, hl, hhops, hjoin⟩ := mem_cells.mp hcell
  obtain ⟨s, hs, hvalue⟩ := h.scenario
  rw [hvalue] at hscenario hl hhops hjoin
  obtain ⟨name, hname, rfl⟩ := h.systems system hsystem
  have hothers : s = "handover" ∨ s = "path" := by
    simp only [List.mem_cons, List.not_mem_nil, or_false] at hs
    rcases hs with rfl | rfl | rfl
    · exact Or.inl rfl
    · exact Or.inr rfl
    · cases hscenario
  rcases hothers with rfl | rfl
  · have hnames : name = "statim" ∨ name = "nfd-kite" := by simpa using hname
    rcases hnames with rfl | rfl
    · obtain rfl := mem_axis_false.mp hhops
      obtain rfl := mem_axis_false.mp hjoin
      exact ⟨.statim r f t d p l, ⟨hvalue, hsystem, hr, hf, ht, hd, hp, hl⟩, rfl⟩
    · obtain rfl := mem_axis_false.mp ht
      obtain rfl := mem_axis_false.mp hd
      obtain rfl := mem_axis_false.mp hp
      obtain rfl := mem_axis_false.mp hl
      obtain rfl := mem_axis_false.mp hhops
      obtain rfl := mem_axis_false.mp hjoin
      exact ⟨.kite r f, ⟨hvalue, hsystem, hr, hf⟩, rfl⟩
  · rw [h.path hvalue, List.mem_singleton] at hsystem
    obtain rfl := Scalar.str.inj hsystem
    obtain rfl := mem_axis_false.mp hl
    exact ⟨.path r f t d p hops join, ⟨hvalue, hr, hf, ht, hd, hp, hhops, hjoin⟩, rfl⟩

omit [FloatArithmetic φ] in
/-- The system and the cell of a network point are on the axes. -/
theorem Point.On.mem_cells (h : Typed settings) {point : Point φ} (hon : point.On settings)
    (hscenario : (settings scenario).scalar.isStr "occupancy" = false) :
    point.system ∈ (settings systems).values ∧
      point.cell ∈ cells settings (point.system.isStr "statim") := by
  rw [Experiments.mem_cells]
  cases point with
  | kite r f =>
      obtain ⟨hvalue, hsystem, hr, hf⟩ := hon
      rw [hvalue]
      exact ⟨hsystem, hr, hf, mem_axis_false.mpr rfl, mem_axis_false.mpr rfl,
        mem_axis_false.mpr rfl, mem_axis_false.mpr rfl, mem_axis_false.mpr rfl,
        mem_axis_false.mpr rfl⟩
  | statim r f t d p l =>
      obtain ⟨hvalue, hsystem, hr, hf, ht, hd, hp, hl⟩ := hon
      rw [hvalue]
      exact ⟨hsystem, hr, hf, ht, hd, hp, hl, mem_axis_false.mpr rfl, mem_axis_false.mpr rfl⟩
  | path r f t d p hops join =>
      obtain ⟨hvalue, hr, hf, ht, hd, hp, hhops, hjoin⟩ := hon
      have hsystem : Scalar.str "statim" ∈ (settings systems).values := by
        rw [h.path hvalue]
        exact List.mem_singleton_self _
      rw [hvalue]
      exact ⟨hsystem, hr, hf, ht, hd, hp, mem_axis_false.mpr rfl, hhops, hjoin⟩
  | occupancy rate delay burst =>
      obtain ⟨hvalue, -⟩ := hon
      rw [hvalue, Scalar.isStr_str] at hscenario
      exact absurd rfl (of_decide_eq_false hscenario)

/-- The runs of an experiment are those of its points, one for every seed. -/
theorem mem_runs (h : Typed settings) {run : Run φ} :
    run ∈ runs settings profile quick ↔
      ∃ point : Point φ, point.On settings ∧
        ∃ seed ∈ seeds settings profile, run = point.run settings profile quick seed := by
  cases hoccupancy : (settings scenario).scalar.isStr "occupancy" with
  | true =>
      have hvalue := Scalar.isStr_eq_true.mp hoccupancy
      simp only [runs, hoccupancy, if_true, occupancyRuns, List.mem_flatMap, List.mem_map]
      constructor
      · rintro ⟨rate, hrate, delay, hdelay, burst, hburst, seed, hseed, rfl⟩
        exact ⟨.occupancy rate delay burst, ⟨hvalue, hrate, hdelay, hburst⟩, seed, hseed, rfl⟩
      · rintro ⟨point, hon, seed, hseed, rfl⟩
        cases point with
        | kite r f => exact absurd (hvalue.symm.trans hon.1) (by simp)
        | statim r f t d p l => exact absurd (hvalue.symm.trans hon.1) (by simp)
        | path r f t d p hops join => exact absurd (hvalue.symm.trans hon.1) (by simp)
        | occupancy rate delay burst =>
            obtain ⟨-, hrate, hdelay, hburst⟩ := hon
            exact ⟨rate, hrate, delay, hdelay, burst, hburst, seed, hseed, rfl⟩
  | false =>
      simp only [runs, hoccupancy, Bool.false_eq_true, if_false, networkRuns, List.mem_flatMap,
        List.mem_map]
      constructor
      · rintro ⟨system, hsystem, cell, hcell, seed, hseed, rfl⟩
        obtain ⟨point, hon, hrun⟩ := exists_point h hoccupancy hsystem hcell
        exact ⟨point, hon, seed, hseed, hrun.symm⟩
      · rintro ⟨point, hon, seed, hseed, rfl⟩
        obtain ⟨hsystem, hcell⟩ := hon.mem_cells h hoccupancy
        refine ⟨point.system, hsystem, point.cell, hcell, seed, hseed, ?_⟩
        cases point with
        | kite r f => rfl
        | statim r f t d p l => rfl
        | path r f t d p hops join => rfl
        | occupancy rate delay burst =>
            rw [hon.1, Scalar.isStr_str] at hoccupancy
            exact absurd rfl (of_decide_eq_false hoccupancy)

/-! ## Command lines -/

theorem Point.On.run_target {point : Point φ} (hon : point.On settings) :
    (point.run settings profile quick seed).target = point.kind.target := by
  cases point with
  | kite r f => simp [run, networkRun, networkTarget, system, hon.1, kind, Kind.target]
  | statim r f t d p l => simp [run, networkRun, networkTarget, system, hon.1, kind, Kind.target]
  | path r f t d p hops join => simp [run, networkRun, networkTarget, hon.1, kind, Kind.target]
  | occupancy rate delay burst => rfl

theorem Point.On.run_argv {point : Point φ} (hon : point.On settings) :
    (point.run settings profile quick seed).argv = point.argv settings profile quick seed := by
  cases point with
  | kite r f =>
      simp [run, networkRun, argv, options, Point.networkOptions, Experiments.networkOptions,
        Dictionary.ofList, Dictionary.insert_update, system, cell, hon.1]
  | statim r f t d p l =>
      simp [run, networkRun, argv, options, Point.networkOptions, Experiments.networkOptions,
        localOptions, Dictionary.ofList, Dictionary.insert_update, system, cell, hon.1]
  | path r f t d p hops join =>
      simp [run, networkRun, argv, options, Point.networkOptions, Experiments.networkOptions,
        localOptions, Dictionary.ofList, Dictionary.insert_update, system, cell, hon.1]
  | occupancy rate delay burst => rfl

theorem Point.On.run_parameters {point : Point φ} (hon : point.On settings) :
    (point.run settings profile quick seed).parameters =
      Dictionary.ofList (point.parameters settings profile quick seed) := by
  cases point with
  | kite r f =>
      simp [run, networkRun, parameters, Point.networkParameters, Experiments.networkParameters,
        Dictionary.ofList, Dictionary.insert_update, system, cell, hon.1]
  | statim r f t d p l =>
      simp [run, networkRun, parameters, Point.networkParameters, Experiments.networkParameters,
        localParameters, Dictionary.ofList, Dictionary.insert_update, system, cell, hon.1]
  | path r f t d p hops join =>
      simp [run, networkRun, parameters, Point.networkParameters, Experiments.networkParameters,
        localParameters, Dictionary.ofList, Dictionary.insert_update, system, cell, hon.1]
  | occupancy rate delay burst => rfl

end Statim.Experiments
