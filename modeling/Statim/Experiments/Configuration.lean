import Statim.Experiments.Values
import Statim.Support.Checks
import Statim.Support.Dictionary
import Mathlib.Data.List.ReduceOption
import Mathlib.Data.List.Sort
import Mathlib.Data.String.Basic

/-!
# Configuration

`configuration.py`: a template of defaults, named experiments that override it, and the
checks that a configuration has to pass.  The sections have a fixed set of keys, which
`load_config` requires, so they are records; the parameters are an enumeration, and a
template assigns a value to each of them.
-/

namespace Statim.Experiments

open Support

/-! ## Parameters -/

/-- `PARAMETERS`. -/
inductive Parameter
  | scenario | systems | seedFirst | seedLast | consumerRetransmissions | controllerDelay
  | temporaryForwarding | interestReforwarding | consumerCbrFrequency | payloadBytes
  | handoverBase | handoverJitter | observationWindow | stop | refreshInterval | traceLifetime
  | interestLifetime | initialRttEstimate | statefulDelay | interestReforwardingLimit
  | generationGuard | controllerRetryLimit | completionNoticeLoss | controllerRetryTimeout
  | retryTimeoutMargin | tracePathHops | consumerJoin | arrivalRate | arrivalCount | initialBurst
  deriving DecidableEq

namespace Parameter

/-- The key of a parameter in the configuration. -/
def name : Parameter → String
  | scenario => "scenario"
  | systems => "systems"
  | seedFirst => "seed_first"
  | seedLast => "seed_last"
  | consumerRetransmissions => "consumer_retransmissions"
  | controllerDelay => "controller_delay_s"
  | temporaryForwarding => "temporary_forwarding"
  | interestReforwarding => "interest_reforwarding"
  | consumerCbrFrequency => "consumer_cbr_frequency"
  | payloadBytes => "payload_bytes"
  | handoverBase => "handover_base_s"
  | handoverJitter => "handover_jitter_s"
  | observationWindow => "observation_window_s"
  | stop => "stop_s"
  | refreshInterval => "refresh_interval_s"
  | traceLifetime => "trace_lifetime_s"
  | interestLifetime => "interest_lifetime_s"
  | initialRttEstimate => "initial_rtt_estimate_s"
  | statefulDelay => "stateful_delay_us"
  | interestReforwardingLimit => "interest_reforwarding_limit"
  | generationGuard => "generation_guard"
  | controllerRetryLimit => "controller_retry_limit"
  | completionNoticeLoss => "completion_notice_loss"
  | controllerRetryTimeout => "controller_retry_timeout_s"
  | retryTimeoutMargin => "retry_timeout_margin_s"
  | tracePathHops => "trace_path_hops"
  | consumerJoin => "consumer_join"
  | arrivalRate => "arrival_rate_per_s"
  | arrivalCount => "arrival_count"
  | initialBurst => "initial_burst"

/-- Every parameter once. -/
def all : List Parameter :=
  [scenario, systems, seedFirst, seedLast, consumerRetransmissions, controllerDelay,
    temporaryForwarding, interestReforwarding, consumerCbrFrequency, payloadBytes, handoverBase,
    handoverJitter, observationWindow, stop, refreshInterval, traceLifetime, interestLifetime,
    initialRttEstimate, statefulDelay, interestReforwardingLimit, generationGuard,
    controllerRetryLimit, completionNoticeLoss, controllerRetryTimeout, retryTimeoutMargin,
    tracePathHops, consumerJoin, arrivalRate, arrivalCount, initialBurst]

theorem mem_all (key : Parameter) : key ∈ all := by
  cases key <;> decide

end Parameter

open Parameter

/-- `ARRAY_KEYS`. -/
def arrayKeys : List Parameter :=
  [systems, consumerRetransmissions, controllerDelay, temporaryForwarding, interestReforwarding,
    statefulDelay, completionNoticeLoss, tracePathHops, consumerJoin, arrivalRate, initialBurst]

/-- `BOOLEAN_KEYS`. -/
def booleanKeys : List Parameter :=
  [consumerRetransmissions, temporaryForwarding, interestReforwarding, generationGuard]

/-- `INTEGER_KEYS`. -/
def integerKeys : List Parameter :=
  [seedFirst, seedLast, payloadBytes, interestReforwardingLimit, controllerRetryLimit,
    tracePathHops, arrivalCount, initialBurst]

/-- `POSITIVE_KEYS`. -/
def positiveKeys : List Parameter :=
  [consumerCbrFrequency, observationWindow, stop, refreshInterval, traceLifetime,
    interestLifetime, initialRttEstimate, arrivalRate, arrivalCount]

/-- `SELECTION_KEYS`. -/
def selectionKeys : List Parameter :=
  [scenario, systems, seedFirst, seedLast]

/-- `MOBILITY_KEYS`. -/
def mobilityKeys : List Parameter :=
  [consumerRetransmissions, interestReforwarding, temporaryForwarding, controllerDelay,
    consumerCbrFrequency, payloadBytes, handoverBase, handoverJitter, observationWindow, stop,
    refreshInterval, traceLifetime, interestLifetime, initialRttEstimate, statefulDelay]

/-- `CONTROL_KEYS`. -/
def controlKeys : List Parameter :=
  [interestReforwardingLimit, generationGuard, controllerRetryLimit, completionNoticeLoss,
    controllerRetryTimeout, retryTimeoutMargin]

/-- `STATIM_ONLY_KEYS`. -/
def statimOnlyKeys : List Parameter :=
  controlKeys ++ [temporaryForwarding, controllerDelay, statefulDelay]

variable {φ : Type}

/-- `SCENARIO_KEYS`. -/
def scenarioKeys (scenario : Scalar φ) : List Parameter :=
  if scenario.isStr "handover" then selectionKeys ++ mobilityKeys ++ controlKeys
  else if scenario.isStr "path" then selectionKeys ++ mobilityKeys ++ [tracePathHops, consumerJoin]
  else selectionKeys ++ [controllerDelay, arrivalRate, arrivalCount, initialBurst]

/-- A value for every parameter. -/
abbrev Settings (φ : Type) :=
  Parameter → Value φ

/-- An `[experiment.NAME]` section: its options, the parameters it overrides, and keys
that are no parameters. -/
structure Experiment (φ : Type) where
  enabled : Option (Value φ)
  analysisViews : Option (Value φ)
  overrides : Dictionary Parameter (Value φ)
  unknown : List String

/-- Whether the experiment runs: by default it does. -/
def Experiment.isEnabled (experiment : Experiment φ) : Bool :=
  match experiment.enabled.getD (.item (.bool true)) with
  | .item (.bool b) => b
  | _ => false

/-- The views that the experiment asks for. -/
def Experiment.views (experiment : Experiment φ) : List String :=
  (experiment.analysisViews.getD (.array [])).values.map Scalar.toStr

/-- The `[checks]` section. -/
structure Checks (φ : Type) where
  enabled : Value φ
  programs : Value φ

/-- The `[microbenchmark]` section. -/
structure Microbenchmark (φ : Type) where
  enabled : Value φ
  lookupOperations : Value φ
  traceDataOperations : Value φ
  repetitions : Value φ
  batch : Value φ
  invocations : Value φ

/-- The `[quick]` section. -/
structure Quick (φ : Type) where
  occupancyArrivalCount : Value φ
  lookupOperations : Value φ
  traceDataOperations : Value φ
  repetitions : Value φ
  batch : Value φ

/-- A configuration. -/
structure Config (φ : Type) where
  defaults : Settings φ
  experiments : Dictionary String (Experiment φ)
  checks : Checks φ
  microbenchmark : Microbenchmark φ
  quick : Quick φ

/-- `CHECK_PROGRAMS`. -/
def checkPrograms : List String :=
  ["state-table-tests", "statim-packet-pipeline-tests", "statim-controller-faults",
    "lpm-consistency"]

/-! ## Checks of single values -/

section Validation

variable [DecidableEq φ] [FloatArithmetic φ]

open FloatArithmetic

/-- `number` of `configuration.py`. -/
def checkNumber (value : Scalar φ) (key : String) (positive integer : Bool) :
    Except String Unit :=
  match value with
  | .number x => do
      require (isfinite x) (key ++ " requires a finite number")
      let isInt := match x with
        | .int _ => true
        | .float _ => false
      require (!((integer && !isInt) || x.lt (.int 0) || (positive && x.eq (.int 0))))
        (key ++ " has an invalid value or numeric type")
  | _ => .error (key ++ " requires a finite number")

/-- The checks of a number that depend on its parameter. -/
def checkRange (key : Parameter) (x : Number φ) : Except String Unit := do
  require (!(key = completionNoticeLoss && Number.lt (.int 1) x))
    "completion_notice_loss requires 0 <= probability <= 1"
  require (!(key = tracePathHops && x.lt (.int 2)))
    "trace_path_hops requires at least two router links"
  require (!(key ∈ integerKeys && Number.lt (.int 4294967295) x))
    (key.name ++ " must fit the simulator's 32-bit unsigned parameter")
  require (!(key ∈ [payloadBytes, interestReforwardingLimit, controllerRetryLimit] &&
      Number.lt (.int 2147483647) x))
    (key.name ++ " must fit the scenario's signed integer parameter")
  let milliseconds := mul x (.int 1000)
  require (!(key ∈ [interestLifetime, traceLifetime] &&
      (x.lt (.float (literal (1 / 1000))) ||
        !isclose milliseconds (round milliseconds) (literal (1 / 10 ^ 7)))))
    (key.name ++ " requires whole milliseconds (seconds >= 0.001)")

/-- One entry of a parameter's value. -/
def validateItem (label : String) (key : Parameter) (item : Scalar φ) : Except String Unit :=
  if key = scenario then
    require (item.isIn ["handover", "path", "occupancy"])
      "scenario choices: handover, path, occupancy"
  else if key = systems then
    require (item.isIn ["statim", "nfd-kite"]) "systems choices: statim, nfd-kite"
  else if key = consumerJoin then
    require (item.isIn ["rendezvous", "middle"]) "consumer_join choices: rendezvous, middle"
  else if key = controllerRetryTimeout ∧ item.isStr "auto" = true then .ok ()
  else if key ∈ booleanKeys then
    require item.isBool (label ++ "." ++ key.name ++ " requires true or false")
  else do
    checkNumber item key.name (key ∈ positiveKeys) (key ∈ integerKeys)
    checkRange key item.toNumber

/-- One parameter: the loop body of `validate_parameters`. -/
def validateEntry (label : String) (key : Parameter) (value : Value φ) : Except String Unit := do
  let entries := value.values
  if key ∈ arrayKeys then
    require (entries ≠ [] && decide entries.Nodup)
      (label ++ "." ++ key.name ++ " requires distinct, nonempty values")
  else
    require (!value.isArray) (label ++ "." ++ key.name ++ " requires one value")
  entries.forM (validateItem label key)

/-! ## Checks of a template -/

/-- The number of a setting. -/
def numberOf (parameters : Settings φ) (key : Parameter) : Number φ :=
  (parameters key).scalar.toNumber

/-- The integer of a setting. -/
def integerOf (parameters : Settings φ) (key : Parameter) : ℤ :=
  (parameters key).scalar.toInt

/-- The checks of the scenarios that move the producer. -/
def validateMobility (parameters : Settings φ) (label : String) : Except String Unit := do
  require (!((numberOf parameters handoverBase).lt (.int 1) ||
      (sub (numberOf parameters stop) (.int 2)).le
        (add (add (numberOf parameters handoverBase) (numberOf parameters handoverJitter))
          (numberOf parameters observationWindow))))
    (label ++ ": handover and observation window must fit inside 1 .. stop_s-2")
  if (parameters scenario).scalar.isStr "path" then do
    require ((parameters systems).values = [.str "statim"])
      "The path scenario uses the Statim forwarding model"
    require (!((numberOf parameters traceLifetime).min (numberOf parameters refreshInterval)).le
        (numberOf parameters stop))
      "Path isolation requires route lifetime and refresh interval greater than stop_s"

/-- The checks of the occupancy scenario. -/
def validateOccupancy (parameters : Settings φ) : Except String Unit := do
  require ((parameters systems).values = [.str "statim"])
    "The occupancy scenario uses the Statim state model"
  require (!((parameters controllerDelay).values.any fun delay => delay.toNumber.le (.int 0)))
    "Occupancy completion delays must be positive"
  require (!((parameters initialBurst).values.any fun burst =>
      (numberOf parameters arrivalCount).lt burst.toNumber))
    "An initial burst fits inside arrival_count"

/-- `validate_parameters`, with the unknown keys of the section. -/
def validateParameters (parameters : Settings φ) (unknown : List String) (label : String) :
    Except String Unit := do
  Parameter.all.forM fun key => validateEntry label key (parameters key)
  unknown.forM fun key => .error (label ++ ": unknown parameter " ++ key)
  require (1 ≤ integerOf parameters seedFirst && integerOf parameters seedFirst ≤
      integerOf parameters seedLast && integerOf parameters seedLast ≤ 4294967295)
    (label ++ ": seed range requires 1 <= first <= last <= 4294967295")
  if (parameters scenario).scalar.isIn ["handover", "path"] then validateMobility parameters label
  if (parameters scenario).scalar.isStr "occupancy" then validateOccupancy parameters

/-! ## Experiments -/

/-- The template with the overrides of an experiment. -/
def effective (config : Config φ) (experiment : Experiment φ) : Settings φ :=
  fun key => (experiment.overrides.get? key).getD (config.defaults key)

/-- The parameters that an experiment with these settings may override. -/
def allowedKeys (settings : Settings φ) : List Parameter :=
  if (settings systems).values = [.str "nfd-kite"] then
    (scenarioKeys (settings scenario).scalar).filter (· ∉ statimOnlyKeys)
  else scenarioKeys (settings scenario).scalar

/-- One experiment of `effective_experiments`: its settings and views, if it is enabled. -/
def effectiveExperiment (config : Config φ) (entry : String × Experiment φ) :
    Except String (Option (String × Settings φ × List String)) := do
  require (entry.2.enabled.getD (.item (.bool true))).scalar.isBool
    (entry.1 ++ ".enabled requires true or false")
  let view := entry.2.analysisViews.getD (.array [])
  require (view.isArray && view.values.all Scalar.isString)
    (entry.1 ++ ".analysis_views requires a list of labels")
  let settings := effective config entry.2
  validateParameters settings entry.2.unknown entry.1
  let unused := (entry.2.overrides.keys.filter (· ∉ allowedKeys settings)).map Parameter.name
  require (unused = []) (entry.1 ++ ": parameters outside this scenario: " ++
    ", ".intercalate (unused.insertionSort (· ≤ ·)))
  return if entry.2.isEnabled then some (entry.1, settings, entry.2.views) else none

/-- `effective_experiments`. -/
def effectiveExperiments (config : Config φ) :
    Except String (List (String × Settings φ × List String)) := do
  let found ← config.experiments.entries.mapM (effectiveExperiment config)
  return found.reduceOption

/-! ## The configuration -/

/-- The operation counts of a section, under their keys. -/
def checkCounts (label : String) (counts : List (String × Value φ)) : Except String Unit :=
  counts.forM fun count => checkNumber count.2.scalar (label ++ "." ++ count.1) true true

/-- The batch size of a section. -/
def checkBatch (label : String) (batch lookup trace : Value φ) : Except String Unit :=
  require (!((lookup.scalar.toNumber.min trace.scalar.toNumber).lt batch.scalar.toNumber))
    (label ++ ": batch size fits both operation counts")

/-- `validate_config`; the template assigns a value to every parameter by its type. -/
def validateConfig (config : Config φ) : Except String Unit := do
  validateParameters config.defaults [] "defaults"
  let _ ← effectiveExperiments config
  require config.checks.enabled.scalar.isBool "checks.enabled requires true or false"
  require config.microbenchmark.enabled.scalar.isBool
    "microbenchmark.enabled requires true or false"
  let programs := config.checks.programs
  require (programs.isArray && (programs.values.all (·.isIn checkPrograms) &&
      decide programs.values.Nodup))
    "checks.programs selects distinct supplied check programs"
  let m := config.microbenchmark
  checkCounts "microbenchmark" [("lookup_operations", m.lookupOperations),
    ("trace_data_operations", m.traceDataOperations), ("repetitions", m.repetitions),
    ("batch", m.batch), ("invocations", m.invocations)]
  checkBatch "microbenchmark" m.batch m.lookupOperations m.traceDataOperations
  let q := config.quick
  checkCounts "quick" [("occupancy_arrival_count", q.occupancyArrivalCount),
    ("lookup_operations", q.lookupOperations), ("trace_data_operations", q.traceDataOperations),
    ("repetitions", q.repetitions), ("batch", q.batch)]
  checkBatch "quick" q.batch q.lookupOperations q.traceDataOperations

/-! ## What the checks establish -/

/-- The parameters whose entries are numbers. -/
def numericKeys : List Parameter :=
  Parameter.all.filter
    (· ∉ [scenario, systems, consumerJoin, controllerRetryTimeout] ++ booleanKeys)

/-- Every setting has a literal of its own kind. -/
structure Typed (parameters : Settings φ) : Prop where
  scenario : ∃ s ∈ ["handover", "path", "occupancy"], (parameters scenario).scalar = .str s
  systems : ∀ item ∈ (parameters systems).values, ∃ s ∈ ["statim", "nfd-kite"], item = .str s
  joins : ∀ item ∈ (parameters consumerJoin).values,
    ∃ s ∈ ["rendezvous", "middle"], item = .str s
  booleans : ∀ key ∈ booleanKeys, ∀ item ∈ (parameters key).values, ∃ b, item = .bool b
  numbers : ∀ key ∈ numericKeys, ∀ item ∈ (parameters key).values, ∃ x, item = .number x
  integers : ∀ key ∈ integerKeys, ∀ item ∈ (parameters key).values, ∃ n, item = .int n
  timeout : (parameters controllerRetryTimeout).scalar = .str "auto" ∨
    ∃ x, (parameters controllerRetryTimeout).scalar = .number x
  single : ∀ key ∉ arrayKeys, (parameters key).isArray = false
  path : (parameters Parameter.scenario).scalar = .str "path" →
    (parameters Parameter.systems).values = [.str "statim"]

omit [DecidableEq φ] in
theorem checkNumber_eq_ok {value : Scalar φ} {key : String} {positive integer : Bool} {u : Unit}
    (h : checkNumber value key positive integer = .ok u) :
    ∃ x, value = .number x ∧ (integer = true → ∃ n, x = .int n) := by
  cases value with
  | number x =>
      simp only [checkNumber, bind_eq_ok, require_eq_ok] at h
      obtain ⟨_, _, hkind⟩ := h
      refine ⟨x, rfl, fun hint => ?_⟩
      cases x with
      | int n => exact ⟨n, rfl⟩
      | float x => simp [hint] at hkind
  | null => cases h
  | bool b => cases h
  | str s => cases h
  | nested text => cases h

variable {parameters : Settings φ} {unknown : List String} {label : String} {u : Unit}

theorem validateEntry_eq_ok {key : Parameter} {value : Value φ}
    (h : validateEntry label key value = .ok u) :
    (key ∉ arrayKeys → value.isArray = false) ∧
      ∀ item ∈ value.values, validateItem label key item = .ok () := by
  unfold validateEntry at h
  by_cases hkey : key ∈ arrayKeys
  · simp only [if_pos hkey, bind_eq_ok, forM_eq_ok] at h
    obtain ⟨_, _, hitems⟩ := h
    exact ⟨fun hne => absurd hkey hne, hitems⟩
  · simp only [if_neg hkey, bind_eq_ok, forM_eq_ok, require_eq_ok] at h
    obtain ⟨_, hsingle, hitems⟩ := h
    refine ⟨fun _ => ?_, hitems⟩
    simpa using hsingle

theorem entry_of_validateParameters (h : validateParameters parameters unknown label = .ok u)
    (key : Parameter) : validateEntry label key (parameters key) = .ok () := by
  unfold validateParameters at h
  simp only [bind_eq_ok] at h
  obtain ⟨_, hentries, _⟩ := h
  exact forM_eq_ok.mp hentries key key.mem_all

theorem path_of_validateParameters (h : validateParameters parameters unknown label = .ok u)
    (hpath : (parameters scenario).scalar = .str "path") :
    (parameters systems).values = [.str "statim"] := by
  unfold validateParameters at h
  simp only [bind_eq_ok] at h
  obtain ⟨_, _, _, _, _, _, hscenario⟩ := h
  have hmobility : (Scalar.str "path" : Scalar φ).isIn ["handover", "path"] = true := by
    simp [Scalar.isIn]
  rw [hpath, if_pos hmobility, bind_eq_ok] at hscenario
  obtain ⟨_, hchecks, _⟩ := hscenario
  unfold validateMobility at hchecks
  simp only [bind_eq_ok, require_eq_ok, hpath] at hchecks
  obtain ⟨_, _, hchecks⟩ := hchecks
  simp only [Scalar.isStr_str, decide_true, if_true, bind_eq_ok, require_eq_ok] at hchecks
  obtain ⟨_, hsystems, _⟩ := hchecks
  exact of_decide_eq_true hsystems

omit [DecidableEq φ] in
theorem validateItem_boolean {key : Parameter} {item : Scalar φ} (hkey : key ∈ booleanKeys)
    (h : validateItem label key item = .ok u) : ∃ b, item = .bool b := by
  have hothers : ∀ key ∈ booleanKeys, key ≠ scenario ∧ key ≠ systems ∧ key ≠ consumerJoin ∧
      key ≠ controllerRetryTimeout := by decide
  obtain ⟨hscenario, hsystems, hjoin, htimeout⟩ := hothers key hkey
  rw [validateItem, if_neg hscenario, if_neg hsystems, if_neg hjoin,
    if_neg fun hauto => htimeout hauto.1, if_pos hkey, require_eq_ok] at h
  exact Scalar.isBool_eq_true.mp h

omit [DecidableEq φ] in
theorem validateItem_numeric {key : Parameter} {item : Scalar φ} (hkey : key ∈ numericKeys)
    (h : validateItem label key item = .ok u) :
    ∃ x, item = .number x ∧ (key ∈ integerKeys → ∃ n, x = .int n) := by
  have hothers : ∀ key ∈ numericKeys, key ≠ scenario ∧ key ≠ systems ∧ key ≠ consumerJoin ∧
      key ≠ controllerRetryTimeout ∧ key ∉ booleanKeys := by decide
  obtain ⟨hscenario, hsystems, hjoin, htimeout, hboolean⟩ := hothers key hkey
  rw [validateItem, if_neg hscenario, if_neg hsystems, if_neg hjoin,
    if_neg fun hauto => htimeout hauto.1, if_neg hboolean, bind_eq_ok] at h
  obtain ⟨_, hnumber, _⟩ := h
  obtain ⟨x, rfl, hint⟩ := checkNumber_eq_ok hnumber
  exact ⟨x, rfl, fun hkey => hint (decide_eq_true hkey)⟩

omit [DecidableEq φ] in
theorem validateItem_timeout {item : Scalar φ}
    (h : validateItem label controllerRetryTimeout item = .ok u) :
    item = .str "auto" ∨ ∃ x, item = .number x := by
  by_cases hauto : item.isStr "auto" = true
  · exact Or.inl (Scalar.isStr_eq_true.mp hauto)
  · rw [validateItem, if_neg (by decide), if_neg (by decide), if_neg (by decide),
      if_neg fun h => hauto h.2, if_neg (by decide), bind_eq_ok] at h
    obtain ⟨_, hnumber, _⟩ := h
    obtain ⟨x, rfl, -⟩ := checkNumber_eq_ok hnumber
    exact Or.inr ⟨x, rfl⟩

/-- Settings that pass the checks are well typed. -/
theorem typed_of_validateParameters (h : validateParameters parameters unknown label = .ok u) :
    Typed parameters := by
  have hentry := entry_of_validateParameters h
  have hitem : ∀ key, ∀ item ∈ (parameters key).values, validateItem label key item = .ok () :=
    fun key => (validateEntry_eq_ok (hentry key)).2
  have hsingle : ∀ key ∉ arrayKeys, (parameters key).isArray = false :=
    fun key => (validateEntry_eq_ok (hentry key)).1
  have hscalar : ∀ key ∉ arrayKeys, validateItem label key (parameters key).scalar = .ok () :=
    fun key hkey => hitem key _ (Value.scalar_mem_values (hsingle key hkey))
  exact {
    scenario := by
      have hcheck := hscalar scenario (by decide)
      rw [validateItem, if_pos rfl, require_eq_ok] at hcheck
      exact Scalar.isIn_eq_true.mp hcheck
    systems := by
      intro item hmem
      have hcheck := hitem systems item hmem
      rw [validateItem, if_neg (by decide), if_pos rfl, require_eq_ok] at hcheck
      exact Scalar.isIn_eq_true.mp hcheck
    joins := by
      intro item hmem
      have hcheck := hitem consumerJoin item hmem
      rw [validateItem, if_neg (by decide), if_neg (by decide), if_pos rfl, require_eq_ok] at hcheck
      exact Scalar.isIn_eq_true.mp hcheck
    booleans := fun key hkey item hmem => validateItem_boolean hkey (hitem key item hmem)
    numbers := by
      intro key hkey item hmem
      obtain ⟨x, hx, -⟩ := validateItem_numeric hkey (hitem key item hmem)
      exact ⟨x, hx⟩
    integers := by
      intro key hkey item hmem
      have hnumeric : ∀ key ∈ integerKeys, key ∈ numericKeys := by decide
      obtain ⟨x, rfl, hint⟩ := validateItem_numeric (hnumeric key hkey) (hitem key item hmem)
      obtain ⟨n, rfl⟩ := hint hkey
      exact ⟨n, rfl⟩
    timeout := validateItem_timeout (hscalar controllerRetryTimeout (by decide))
    single := hsingle
    path := path_of_validateParameters h }

end Validation

/-! ## Accepted configurations -/

section Accepted

variable {config : Config φ} {name : String} {settings : Settings φ} {views : List String}

/-- An experiment runs with these settings and asks for these views: it is not disabled,
every parameter has the value that overrides it or else that of the template, and the
views are those it lists, if it lists any. -/
structure Asks (config : Config φ) (experiment : Experiment φ) (settings : Settings φ)
    (views : List String) : Prop where
  enabled : experiment.enabled = none ∨ experiment.enabled = some (.item (.bool true))
  overridden : ∀ key value, (key, value) ∈ experiment.overrides.entries → settings key = value
  inherited : ∀ key, key ∉ experiment.overrides.keys → settings key = config.defaults key
  views : experiment.analysisViews = none ∧ views = [] ∨
    experiment.analysisViews = some (.array (views.map .str))

/-- The configuration enables an experiment with these settings, which asks for these
views. -/
def Config.Enabled (config : Config φ) (name : String) (settings : Settings φ)
    (views : List String) : Prop :=
  ∃ experiment, (name, experiment) ∈ config.experiments.entries ∧
    Asks config experiment settings views

theorem effective_of_mem {experiment : Experiment φ} {key : Parameter} {value : Value φ}
    (h : (key, value) ∈ experiment.overrides.entries) :
    effective config experiment key = value := by
  rw [effective, Dictionary.get?_eq_some_iff.mpr h, Option.getD_some]

theorem effective_of_notMem {experiment : Experiment φ} {key : Parameter}
    (h : key ∉ experiment.overrides.keys) :
    effective config experiment key = config.defaults key := by
  rw [effective, Dictionary.get?_eq_none_iff.mpr h, Option.getD_none]

/-- The settings are the template with the overrides. -/
theorem Asks.settings_eq {experiment : Experiment φ}
    (h : Asks config experiment settings views) : settings = effective config experiment := by
  funext key
  by_cases hkey : key ∈ experiment.overrides.keys
  · obtain ⟨⟨key, value⟩, hmem, rfl⟩ := List.mem_map.mp hkey
    rw [h.overridden key value hmem, effective_of_mem hmem]
  · rw [h.inherited key hkey, effective_of_notMem hkey]

theorem Asks.isEnabled {experiment : Experiment φ}
    (h : Asks config experiment settings views) : experiment.isEnabled = true := by
  rcases h.enabled with henabled | henabled <;> rw [Experiment.isEnabled, henabled] <;> rfl

theorem Asks.views_eq {experiment : Experiment φ}
    (h : Asks config experiment settings views) : views = experiment.views := by
  rcases h.views with ⟨hviews, rfl⟩ | hviews
  · rw [Experiment.views, hviews]
    rfl
  · rw [Experiment.views, hviews, Option.getD_some, Value.values, List.map_map]
    exact (List.map_id _).symm

/-- The name of an experiment determines it. -/
theorem Config.Enabled.eq {settings' : Settings φ} {views' : List String}
    (h : config.Enabled name settings views) (h' : config.Enabled name settings' views') :
    settings = settings' ∧ views = views' := by
  obtain ⟨experiment, hentry, hasks⟩ := h
  obtain ⟨experiment', hentry', hasks'⟩ := h'
  obtain rfl := Dictionary.eq_of_mem hentry hentry'
  exact ⟨hasks.settings_eq.trans hasks'.settings_eq.symm,
    hasks.views_eq.trans hasks'.views_eq.symm⟩

/-- A list of labels is the array of its views. -/
theorem Experiment.analysisViews_eq {experiment : Experiment φ}
    (h : ((experiment.analysisViews.getD (.array [])).isArray &&
      (experiment.analysisViews.getD (.array [])).values.all Scalar.isString) = true) :
    experiment.analysisViews = none ∧ experiment.views = [] ∨
      experiment.analysisViews = some (.array (experiment.views.map .str)) := by
  rw [Experiment.views]
  cases hviews : experiment.analysisViews with
  | none => exact Or.inl ⟨rfl, rfl⟩
  | some value =>
      rw [hviews, Option.getD_some, Bool.and_eq_true] at h
      cases value with
      | item item => exact absurd h.1 (by simp [Value.isArray])
      | array items =>
          refine Or.inr (congrArg (some ∘ Value.array) ?_)
          rw [Option.getD_some, Value.values, List.map_map]
          refine ((List.map_congr_left fun item hmem => ?_).trans (List.map_id items)).symm
          have hstring := List.all_eq_true.mp h.2 item hmem
          cases item with
          | str s => rfl
          | _ => cases hstring

theorem Experiment.enabled_of_isEnabled {experiment : Experiment φ}
    (h : experiment.isEnabled = true) :
    experiment.enabled = none ∨ experiment.enabled = some (.item (.bool true)) := by
  unfold Experiment.isEnabled at h
  cases henabled : experiment.enabled with
  | none => exact Or.inl rfl
  | some value =>
      rw [henabled, Option.getD_some] at h
      split at h
      next b => exact Or.inr (by rw [h])
      next => cases h

/-- An enabled experiment asks for its effective settings. -/
theorem asks_effective {experiment : Experiment φ} (henabled : experiment.isEnabled = true)
    (hviews : experiment.analysisViews = none ∧ experiment.views = [] ∨
      experiment.analysisViews = some (.array (experiment.views.map .str))) :
    Asks config experiment (effective config experiment) experiment.views :=
  ⟨Experiment.enabled_of_isEnabled henabled, fun _ _ => effective_of_mem,
    fun _ => effective_of_notMem, hviews⟩

variable [DecidableEq φ] [FloatArithmetic φ]

theorem effectiveExperiment_eq_ok {entry : String × Experiment φ}
    {found : Option (String × Settings φ × List String)}
    (h : effectiveExperiment config entry = .ok found) :
    Typed (effective config entry.2) ∧
      (entry.2.analysisViews = none ∧ entry.2.views = [] ∨
        entry.2.analysisViews = some (.array (entry.2.views.map .str))) ∧
      found = if entry.2.isEnabled then some (entry.1, effective config entry.2, entry.2.views)
        else none := by
  unfold effectiveExperiment at h
  simp only [bind_eq_ok, require_eq_ok] at h
  obtain ⟨_, _, _, hviews, _, hvalid, _, _, h⟩ := h
  exact ⟨typed_of_validateParameters hvalid, Experiment.analysisViews_eq hviews,
    (Except.ok.inj h).symm⟩

/-- The experiments of an accepted configuration are the enabled ones, and their settings
are well typed. -/
theorem mem_effectiveExperiments {found : List (String × Settings φ × List String)}
    (h : effectiveExperiments config = .ok found) :
    (name, settings, views) ∈ found ↔ config.Enabled name settings views := by
  unfold effectiveExperiments at h
  rw [bind_eq_ok] at h
  obtain ⟨results, hresults, h⟩ := h
  obtain rfl := Except.ok.inj h
  rw [List.reduceOption_mem_iff, mem_of_mapM_eq_ok hresults]
  constructor
  · rintro ⟨⟨name', experiment⟩, hmem, hfound⟩
    obtain ⟨-, hviews, hresult⟩ := effectiveExperiment_eq_ok hfound
    cases henabled : experiment.isEnabled with
    | false =>
        rw [henabled] at hresult
        cases hresult
    | true =>
        rw [henabled, if_pos rfl, Option.some.injEq, Prod.mk.injEq, Prod.mk.injEq] at hresult
        obtain ⟨rfl, rfl, rfl⟩ := hresult
        exact ⟨experiment, hmem, asks_effective henabled hviews⟩
  · rintro ⟨experiment, hmem, hasks⟩
    obtain rfl := hasks.settings_eq
    obtain rfl := hasks.views_eq
    obtain ⟨result, hresult⟩ := ok_of_mapM_eq_ok hresults hmem
    have hfound := (effectiveExperiment_eq_ok hresult).2.2
    rw [hasks.isEnabled, if_pos rfl] at hfound
    exact ⟨(name, experiment), hmem, hfound ▸ hresult⟩

theorem typed_of_enabled {found : List (String × Settings φ × List String)}
    (h : effectiveExperiments config = .ok found) (henabled : config.Enabled name settings views) :
    Typed settings := by
  unfold effectiveExperiments at h
  rw [bind_eq_ok] at h
  obtain ⟨results, hresults, -⟩ := h
  obtain ⟨experiment, hmem, hasks⟩ := henabled
  obtain rfl := hasks.settings_eq
  obtain ⟨result, hresult⟩ := ok_of_mapM_eq_ok hresults hmem
  exact (effectiveExperiment_eq_ok hresult).1

/-- The experiments of an accepted configuration are found. -/
theorem effectiveExperiments_of_validateConfig {u : Unit} (h : validateConfig config = .ok u) :
    ∃ found, effectiveExperiments config = .ok found := by
  unfold validateConfig at h
  simp only [bind_eq_ok] at h
  obtain ⟨_, _, found, hfound, _⟩ := h
  exact ⟨found, hfound⟩

/-- The programs of an accepted configuration are supplied ones. -/
theorem programs_of_validateConfig {u : Unit} (h : validateConfig config = .ok u) :
    ∀ item ∈ config.checks.programs.values, ∃ s ∈ checkPrograms, item = .str s := by
  unfold validateConfig at h
  simp only [bind_eq_ok, require_eq_ok, Bool.and_eq_true, List.all_eq_true] at h
  obtain ⟨_, _, _, _, _, _, _, _, _, hprograms, _⟩ := h
  intro item hmem
  exact Scalar.isIn_eq_true.mp (hprograms.2.1 item hmem)

end Accepted

end Statim.Experiments
