import Statim.Experiments.Configuration
import Statim.Support.JsonText

/-!
# Experiment matrix

`matrix.py`: every experiment runs through the product of its axes, and runs with the same
target and arguments are one job, whichever experiments ask for it.  The hash that names
the job is a parameter.
-/

namespace Statim.Experiments

open Support Parameter FloatArithmetic

variable {φ : Type} [FloatArithmetic φ]

/-! ## Tables -/

/-- `COMMON_OPTIONS`. -/
def commonOptions : List (Parameter × String) :=
  [(consumerCbrFrequency, "consumerCbrFreq"), (payloadBytes, "payloadSize"),
    (handoverBase, "hoBase"), (handoverJitter, "hoJitter"), (observationWindow, "windowLen"),
    (stop, "stop"), (refreshInterval, "refreshInterval"), (traceLifetime, "traceLifeTime"),
    (interestLifetime, "interestLifetime"), (initialRttEstimate, "initialRttEstimate")]

/-- `STATIM_OPTIONS`. -/
def statimOptions : List (Parameter × String) :=
  [(interestReforwardingLimit, "interestReforwardingLimit"),
    (generationGuard, "generationGuard"), (controllerRetryLimit, "controllerRetryLimit")]

/-- `VIEWS`. -/
def scenarioViews (scenario : Scalar φ) : List String :=
  if scenario.isStr "handover" then
    ["handover_delay", "request_satisfaction", "final_forwarding_state"]
  else if scenario.isStr "path" then
    ["handover_delay", "request_satisfaction", "trace_paths", "final_forwarding_state"]
  else ["active_state", "residence"]

/-- The families of jobs. -/
inductive Family
  | primary | paths | occupancy | faults | lookup | boundary | microbenchmark
  deriving DecidableEq

/-- The text of a family in names and paths. -/
def Family.text : Family → String
  | primary => "primary"
  | paths => "paths"
  | occupancy => "occupancy"
  | faults => "faults"
  | lookup => "lookup"
  | boundary => "boundary"
  | microbenchmark => "microbenchmark"

/-- What a job measures. -/
inductive Phase
  | simulation | cpuTiming
  deriving DecidableEq

/-- The two sizes of a study. -/
inductive Profile
  | full | quick
  deriving DecidableEq

/-- One execution before it is registered as a job. -/
structure Run (φ : Type) where
  family : Family
  target : String
  argv : List String
  expectedConfig : Dictionary String String
  parameters : Dictionary String (Scalar φ)
  phase : Phase

/-- A job of the expansion. -/
structure Job (φ : Type) extends Run φ where
  id : String
  name : String
  experiments : List String
  analysisViews : List String

/-! ## Options -/

/-- `number` of `matrix.py`; the checks leave booleans and numbers here. -/
def number : Scalar φ → String
  | .bool b => if b then "1" else "0"
  | .number x => format x
  | _ => ""

/-- One argument of a command line. -/
def argument (key value : String) : String :=
  "--" ++ key ++ "=" ++ value

/-- `arguments`. -/
def arguments (options : Dictionary String String) : List String :=
  (options.entries.insertionSort fun a b => a.1 ≤ b.1).map fun e => argument e.1 e.2

/-- `seeds`. -/
def seeds (settings : Settings φ) : Profile → List ℤ
  | .quick => [integerOf settings seedFirst]
  | .full => (List.range (integerOf settings seedLast + 1 - integerOf settings seedFirst).toNat).map
      fun i : ℕ => integerOf settings seedFirst + i

/-! ## Network runs -/

/-- One point of the axes of a network scenario; `null` where an axis does not apply. -/
structure Cell (φ : Type) where
  retransmit : Scalar φ
  reforward : Scalar φ
  temporary : Scalar φ
  delay : Scalar φ
  processing : Scalar φ
  loss : Scalar φ
  hops : Scalar φ
  join : Scalar φ

/-- The entries of an axis that applies, else one `null`. -/
def axis (settings : Settings φ) (key : Parameter) (applies : Bool) : List (Scalar φ) :=
  if applies then (settings key).values else [.null]

/-- The product of the axes. -/
def cells (settings : Settings φ) (isLocal : Bool) : List (Cell φ) :=
  let scenario := (settings scenario).scalar
  (axis settings consumerRetransmissions true).flatMap fun retransmit =>
  (axis settings interestReforwarding true).flatMap fun reforward =>
  (axis settings temporaryForwarding isLocal).flatMap fun temporary =>
  (axis settings controllerDelay isLocal).flatMap fun delay =>
  (axis settings statefulDelay isLocal).flatMap fun processing =>
  (axis settings completionNoticeLoss (isLocal && scenario.isStr "handover")).flatMap fun loss =>
  (axis settings tracePathHops (scenario.isStr "path")).flatMap fun hops =>
  (axis settings consumerJoin (scenario.isStr "path")).map fun join =>
    ⟨retransmit, reforward, temporary, delay, processing, loss, hops, join⟩

/-- The retry timeout, derived from the delay where it is `"auto"`. -/
def retryTimeout (settings : Settings φ) (delay loss : Scalar φ) : Scalar φ :=
  let timeout := (settings controllerRetryTimeout).scalar
  if timeout.isStr "auto" then
    if !loss.toNumber.eq (.int 0) then
      .number (add (mul (.int 2) delay.toNumber) (numberOf settings retryTimeoutMargin))
    else .int 0
  else timeout

/-- The processing delay in seconds. -/
def statefulSeconds (processing : Scalar φ) : Scalar φ :=
  .number (div processing.toNumber (.int 1000000))

/-- The options of a network run, without the run index. -/
def networkOptions (settings : Settings φ) (isLocal : Bool) (cell : Cell φ) :
    List (String × String) :=
  let scenario := (settings scenario).scalar
  commonOptions.map (fun e => (e.2, number (settings e.1).scalar)) ++
  [("consumerRetransmissions", number cell.retransmit),
    ("enableInterestReforwarding", number cell.reforward)] ++
  (if isLocal then
    [("enableTemporaryFib", number cell.temporary), ("controllerDelay", number cell.delay),
      ("statefulDelay", number (statefulSeconds cell.processing))] ++
    if scenario.isStr "handover" then
      statimOptions.map (fun e => (e.2, number (settings e.1).scalar)) ++
      [("controlLossRate", number cell.loss),
        ("controllerRetryTimeout", number (retryTimeout settings cell.delay cell.loss))]
    else []
  else []) ++
  if scenario.isStr "path" then
    [("tracePathHops", number cell.hops), ("consumerJoin", cell.join.toStr)]
  else []

/-- The recorded parameters of a network run, without the seed. -/
def networkParameters (settings : Settings φ) (system : Scalar φ) (isLocal : Bool)
    (cell : Cell φ) : List (String × Scalar φ) :=
  let scenario := (settings scenario).scalar
  commonOptions.map (fun e => (e.1.name, (settings e.1).scalar)) ++
  [("scenario", scenario), ("system", system),
    ("topology", .str (if scenario.isStr "path" then "router-chain" else "six-router")),
    ("consumer_retransmissions", cell.retransmit), ("interest_reforwarding", cell.reforward)] ++
  (if isLocal then
    [("temporary_forwarding", cell.temporary), ("controller_delay_s", cell.delay),
      ("stateful_delay_us", cell.processing)] ++
    if scenario.isStr "handover" then
      statimOptions.map (fun e => (e.1.name, (settings e.1).scalar)) ++
      [("completion_notice_loss", cell.loss),
        ("controller_retry_timeout_s", retryTimeout settings cell.delay cell.loss)]
    else
      -- the fixed control policy of the path model
      [("interest_reforwarding_limit", .int 1000), ("generation_guard", .bool false),
        ("controller_retry_limit", .int 3), ("controller_retry_timeout_s", .int 0),
        ("completion_notice_loss", .int 0)]
  else []) ++
  if scenario.isStr "path" then
    [("trace_path_hops", cell.hops), ("consumer_join", cell.join)]
  else []

/-- The options that the run has to report. -/
def expectedKeys (settings : Settings φ) (isLocal : Bool) : List String :=
  let scenario := (settings scenario).scalar
  ["consumerRetransmissions", "enableInterestReforwarding", "windowLen", "stop",
    "interestLifetime", "initialRttEstimate"] ++
  (if isLocal then
    ["enableTemporaryFib", "controllerDelay", "statefulDelay"] ++
    if scenario.isStr "handover" then
      statimOptions.map (·.2) ++ ["controlLossRate", "controllerRetryTimeout"]
    else []
  else []) ++
  if scenario.isStr "path" then
    ["tracePathHops", "consumerJoin", "traceLifeTime", "refreshInterval"]
  else []

/-- The program that runs a network scenario. -/
def networkTarget (settings : Settings φ) (isLocal : Bool) : String :=
  if (settings scenario).scalar.isStr "path" then "statim-path"
  else if isLocal then "statim-grid" else "kite-grid"

/-- One run of the loop body of `network_runs`. -/
def networkRun (settings : Settings φ) (system : Scalar φ) (cell : Cell φ) (seed : ℤ) : Run φ :=
  let isPath := (settings scenario).scalar.isStr "path"
  let isLocal := system.isStr "statim"
  let target := networkTarget settings isLocal
  let options := Dictionary.ofList (networkOptions settings isLocal cell)
  let option := fun key => (options.get? key).getD ""
  { family := if isPath then .paths else .primary
    target := target
    argv := arguments (options.insert "run" (toString seed))
    expectedConfig := Dictionary.ofList
      ((expectedKeys settings isLocal).map (fun key => (key, option key)) ++
      [("scenario", target), ("r", option "consumerCbrFreq")] ++
      (if isPath then
        [("joinIndex", toString (if cell.join.isStr "middle" then cell.hops.toInt / 2 else 0)),
          ("controllerDelayModel", "scheduled-decision-to-effect")]
      else []) ++
      [("run", toString seed)])
    parameters := (Dictionary.ofList (networkParameters settings system isLocal cell)).insert
      "seed" (.int seed)
    phase := .simulation }

/-- `network_runs`. -/
def networkRuns (settings : Settings φ) (profile : Profile) : List (Run φ) :=
  (settings systems).values.flatMap fun system =>
  (cells settings (system.isStr "statim")).flatMap fun cell =>
  (seeds settings profile).map fun seed => networkRun settings system cell seed

/-! ## Occupancy runs -/

/-- The number of arrivals; the quick profile keeps the burst and one arrival more. -/
def arrivals (settings : Settings φ) (quick : Quick φ) (burst : Scalar φ) : Profile → ℤ
  | .full => integerOf settings arrivalCount
  | .quick => min (integerOf settings arrivalCount)
      (max quick.occupancyArrivalCount.scalar.toInt (burst.toInt + 1))

/-- One run of the loop body of `occupancy_runs`. -/
def occupancyRun (rate delay burst : Scalar φ) (count seed : ℤ) : Run φ where
  family := .occupancy
  target := "temporary-fib-occupancy"
  argv := arguments (Dictionary.ofList
    [("lambda", number rate), ("Tc", number delay), ("burst", toString burst.toInt),
      ("arrivalCount", toString count), ("seed", toString seed)])
  expectedConfig := Dictionary.empty
  parameters := Dictionary.ofList
    [("scenario", .str "occupancy"), ("system", .str "statim"), ("seed", .int seed),
      ("arrival_rate_per_s", rate), ("controller_delay_s", delay), ("initial_burst", burst),
      ("arrival_count", .int count)]
  phase := .simulation

/-- `occupancy_runs`. -/
def occupancyRuns (settings : Settings φ) (profile : Profile) (quick : Quick φ) :
    List (Run φ) :=
  (settings arrivalRate).values.flatMap fun rate =>
  (settings controllerDelay).values.flatMap fun delay =>
  (settings initialBurst).values.flatMap fun burst =>
  (seeds settings profile).map fun seed =>
    occupancyRun rate delay burst (arrivals settings quick burst profile) seed

/-- The runs of an experiment. -/
def runs (settings : Settings φ) (profile : Profile) (quick : Quick φ) : List (Run φ) :=
  if (settings scenario).scalar.isStr "occupancy" then occupancyRuns settings profile quick
  else networkRuns settings profile

/-! ## Registering jobs -/

/-- The JSON text that identifies a run. -/
def identity (target : String) (argv : List String) (independent : Option ℤ) : String :=
  String.ofList ('[' :: JsonText.quote target ++ ',' :: JsonText.strings argv ++ ',' ::
    (match independent with
      | none => "null"
      | some n => toString n).toList ++ [']'])

/-- `list(dict.fromkeys(l))`. -/
def fromkeys (l : List String) : List String :=
  (Dictionary.ofList (l.map fun x => (x, ()))).keys

/-- A call of `include`. -/
structure Request (φ : Type) where
  run : Run φ
  experiment : String
  views : List String
  independent : Option ℤ

/-- The identity of the requested run. -/
def Request.identity (request : Request φ) : String :=
  Experiments.identity request.run.target request.run.argv request.independent

/-- The registered jobs by their identities, in the order of registration. -/
abbrev Jobs (φ : Type) :=
  Dictionary String (Job φ)

/-- The file name of a new job. -/
def jobName (sha256 : String → String) (request : Request φ) : String :=
  request.run.family.text ++ "-" ++
    String.ofList ((sha256 request.identity).toList.take 16)

/-- A new job; the occupancy program is told where to write. -/
def newJob (request : Request φ) (name : String) : Job φ where
  toRun :=
    if request.run.family = .occupancy then
      { request.run with
        argv := request.run.argv ++
          [argument "outputPrefix" ("\x7bOUTPUT\x7d/data/raw/occupancy/" ++ name)] }
    else request.run
  id := request.run.family.text ++ "/" ++ name
  name := name
  experiments := [request.experiment]
  analysisViews := fromkeys request.views

/-- A job that one more experiment asks for. -/
def Job.join (job : Job φ) (request : Request φ) : Job φ :=
  { job with
    experiments := fromkeys (job.experiments ++ [request.experiment])
    analysisViews := fromkeys (job.analysisViews ++ request.views) }

/-- `include`. -/
def includeRun (sha256 : String → String) (jobs : Jobs φ) (request : Request φ) :
    Except String (Jobs φ) :=
  match jobs.get? request.identity with
  | some existing => .ok (jobs.insert request.identity (existing.join request))
  | none =>
      let name := jobName sha256 request
      if jobs.values.any fun job => job.name = name then
        .error "Experiment file identifier collision"
      else .ok (jobs.insert request.identity (newJob request name))

/-! ## Expansion -/

/-- The runs of the enabled experiments. -/
def experimentRequests (quick : Quick φ) (profile : Profile)
    (found : List (String × Settings φ × List String)) : List (Request φ) :=
  found.flatMap fun (experiment, settings, extraViews) =>
    (runs settings profile quick).map fun run =>
      ⟨run, experiment, scenarioViews (settings scenario).scalar ++ extraViews, none⟩

/-- The family of a check program. -/
def checkFamily (target : String) : Family :=
  if target = "statim-controller-faults" then .faults
  else if target = "lpm-consistency" then .lookup
  else .boundary

/-- The run of a check program. -/
def checkRun (target : String) : Run φ where
  family := checkFamily target
  target := target
  argv := []
  expectedConfig := Dictionary.empty
  parameters := Dictionary.ofList [("check", .str target)]
  phase := .simulation

/-- The selected check programs. -/
def checkRequests (checks : Checks φ) : List (Request φ) :=
  if checks.enabled.scalar.isTrue then
    checks.programs.values.map fun target =>
      ⟨checkRun target.toStr, "functional_checks", ["functional_checks"], none⟩
  else []

/-- The operation counts of the microbenchmark. -/
def operationCounts (config : Config φ) : Profile → List (String × Scalar φ)
  | .full => [("lookup_operations", config.microbenchmark.lookupOperations.scalar),
      ("trace_data_operations", config.microbenchmark.traceDataOperations.scalar),
      ("repetitions", config.microbenchmark.repetitions.scalar),
      ("batch", config.microbenchmark.batch.scalar)]
  | .quick => [("lookup_operations", config.quick.lookupOperations.scalar),
      ("trace_data_operations", config.quick.traceDataOperations.scalar),
      ("repetitions", config.quick.repetitions.scalar),
      ("batch", config.quick.batch.scalar)]

/-- One invocation of the microbenchmark. -/
def microbenchmarkRun (counts : List (String × Scalar φ)) (invocation : ℤ) : Run φ where
  family := .microbenchmark
  target := "software-microbenchmark"
  argv := counts.map fun count => toString count.2.toInt
  expectedConfig := Dictionary.empty
  parameters := (Dictionary.ofList counts).insert "invocation" (.int invocation)
  phase := .cpuTiming

/-- The invocations of the microbenchmark; an argument of `expand` overrides the section. -/
def microbenchmarkRequests (config : Config φ) (profile : Profile)
    (microbenchmark : Option Bool) : List (Request φ) :=
  if microbenchmark.getD config.microbenchmark.enabled.scalar.isTrue then
    (List.range config.microbenchmark.invocations.scalar.toInt.toNat).map fun i : ℕ =>
      ⟨microbenchmarkRun (operationCounts config profile) (i + 1), "software_profile",
        ["software_operation_cost"], some (i + 1)⟩
  else []

/-- `expand`. -/
def expand [DecidableEq φ] (sha256 : String → String) (config : Config φ) (profile : Profile)
    (microbenchmark : Option Bool) : Except String (List (Job φ)) := do
  validateConfig config
  let found ← effectiveExperiments config
  let requests := experimentRequests config.quick profile found ++ checkRequests config.checks ++
    microbenchmarkRequests config profile microbenchmark
  let jobs ← requests.foldlM (includeRun sha256) Dictionary.empty
  return jobs.values

end Statim.Experiments
