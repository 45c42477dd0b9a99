import Statim.Experiments.Matrix

/-!
# Effective parameters

`observations.py` reads the parameters of a job: the recorded ones if there are any, else
those of its command line, both in the vocabulary of the configuration.
-/

namespace Statim.Experiments

open Support FloatArithmetic

variable {φ : Type} [FloatArithmetic φ]

/-! ## Arguments -/

/-- The name and the text of an argument `--name=text`. -/
def splitArgument (arg : String) : Option (String × String) :=
  match arg.toList with
  | '-' :: '-' :: rest =>
      if '=' ∈ rest then
        some (String.ofList (rest.takeWhile (· ≠ '=')),
          String.ofList (rest.dropWhile (· ≠ '=')).tail)
      else none
  | _ => none

/-- `OPTION_NAMES`. -/
def optionNames : List (String × String) :=
  [("consumerCbrFreq", "consumer_cbr_frequency"), ("payloadSize", "payload_bytes"),
    ("hoBase", "handover_base_s"), ("hoJitter", "handover_jitter_s"),
    ("windowLen", "observation_window_s"), ("stop", "stop_s"),
    ("refreshInterval", "refresh_interval_s"), ("traceLifeTime", "trace_lifetime_s"),
    ("retxTime", "interest_lifetime_s"), ("interestLifetime", "interest_lifetime_s"),
    ("rttInitialEstimate", "initial_rtt_estimate_s"),
    ("initialRttEstimate", "initial_rtt_estimate_s"),
    ("interestReforwardingLimit", "interest_reforwarding_limit"),
    ("generationGuard", "generation_guard"), ("controllerRetryLimit", "controller_retry_limit"),
    ("enableInterestReforwarding", "interest_reforwarding"),
    ("enableTemporaryFib", "temporary_forwarding"),
    ("consumerRetransmissions", "consumer_retransmissions"),
    ("statefulDelay", "stateful_delay_s"), ("controllerDelay", "controller_delay_s"),
    ("controlLossRate", "completion_notice_loss"),
    ("controllerRetryTimeout", "controller_retry_timeout_s"),
    ("tracePathHops", "trace_path_hops"), ("consumerJoin", "consumer_join"),
    ("lambda", "arrival_rate_per_s"), ("Tc", "controller_delay_s"),
    ("arrivalCount", "arrival_count"), ("burst", "initial_burst")]

/-- The parameter that an option sets. -/
def optionName (option : String) : String :=
  (Dictionary.find option optionNames).getD option

/-- `BOOLEAN_FIELDS`. -/
def booleanFields : List String :=
  ["temporary_forwarding", "interest_reforwarding", "consumer_retransmissions",
    "generation_guard"]

/-- `scalar`. -/
def scalar : Scalar φ → Scalar φ
  | .str text =>
      if text = "true" ∨ text = "false" then .bool (text = "true")
      else match parse text with
        | some x => .number (.float x)
        | none => .str text
  | value => value

/-! ## Reading the command line -/

/-- The parameters of one more argument. -/
def readArgument (result : Dictionary String (Scalar φ)) (arg : String) :
    Dictionary String (Scalar φ) :=
  match splitArgument arg with
  | some (name, text) =>
      if name = "outputPrefix" then result
      else result.insert (optionName name) (scalar (.str text))
  | none => result

/-- The parameters of a command line, under their names. -/
def readOptions (argv : List String) : Dictionary String (Scalar φ) :=
  argv.foldl readArgument Dictionary.empty

/-- Earlier data sets give one option for two parameters. -/
def defaultEstimate (argv : List String) (result : Dictionary String (Scalar φ)) :
    Dictionary String (Scalar φ) :=
  if argv.any fun arg => (splitArgument arg).map Prod.fst = some "retxTime" then
    result.setdefault "initial_rtt_estimate_s"
      ((result.get? "interest_lifetime_s").getD .null)
  else result

/-- The processing delay is an option in seconds and a parameter in microseconds. -/
def inMicroseconds (result : Dictionary String (Scalar φ)) : Dictionary String (Scalar φ) :=
  match result.get? "stateful_delay_s" with
  | some value =>
      (result.erase "stateful_delay_s").insert "stateful_delay_us"
        (.number (mul value.toNumber (.int 1000000)))
  | none => result

/-- The positional arguments of the microbenchmark. -/
def readPositional (argv : List String) (result : Dictionary String (Scalar φ)) :
    Dictionary String (Scalar φ) :=
  if argv.length = 4 then
    result.update (["lookup_operations", "trace_data_operations", "repetitions", "batch"].zip
      (argv.map fun text => scalar (.str text)))
  else result

/-- The parameters of a command line. -/
def reconstruct (target : String) (argv : List String) : Dictionary String (Scalar φ) :=
  let result := inMicroseconds (defaultEstimate argv (readOptions argv))
  if target = "software-microbenchmark" then readPositional argv result else result

/-! ## The common vocabulary -/

/-- Move an entry to another key, which must not disagree. -/
def rename (old new message : String) (result : Dictionary String (Scalar φ)) :
    Except String (Dictionary String (Scalar φ)) :=
  match result.get? old with
  | none => .ok result
  | some value =>
      match (result.erase old).get? new with
      | none => .ok ((result.erase old).insert new value)
      | some recorded =>
          if recorded.eq value then .ok ((result.erase old).insert new value)
          else .error message

/-- The programs of the network scenarios. -/
def networkTargets : List String :=
  ["statim-grid", "statim-path", "kite-grid"]

/-- The run index of a network program is the seed of its sample. -/
def renameRun (target : String) (result : Dictionary String (Scalar φ)) :
    Except String (Dictionary String (Scalar φ)) :=
  if target ∈ networkTargets then
    rename "run" "seed" "Recorded seed and scenario RNG run index disagree" result
  else .ok result

/-- Entries for the keys that are not there. -/
def setdefaults (defaults : List (String × Scalar φ)) (result : Dictionary String (Scalar φ)) :
    Dictionary String (Scalar φ) :=
  defaults.foldl (fun result e => result.setdefault e.1 e.2) result

/-- The settings that a program fixes. -/
def fixedSettings (target : String) : List (String × Scalar φ) :=
  if target ∈ networkTargets then
    [("system", .str (if target = "kite-grid" then "nfd-kite" else "statim")),
      ("scenario", .str (if target = "statim-path" then "path" else "handover")),
      ("topology", .str (if target = "statim-path" then "router-chain" else "six-router"))] ++
    if target = "statim-path" then
      [("interest_reforwarding_limit", .int 1000), ("generation_guard", .bool false),
        ("controller_retry_limit", .int 3), ("controller_retry_timeout_s", .int 0),
        ("completion_notice_loss", .int 0)]
    else []
  else if target = "temporary-fib-occupancy" then
    [("scenario", .str "occupancy"), ("system", .str "statim")]
  else if target ∈ checkPrograms then [("check", .str target)]
  else []

/-- `bool(value)` of a value that is 0 or 1. -/
def toBoolean : Scalar φ → Scalar φ
  | .number x => if x.eq (.int 0) then .bool false else if x.eq (.int 1) then .bool true
      else .number x
  | value => value

/-- The common form of a value. -/
def canonicalValue (name : String) (value : Scalar φ) : Scalar φ :=
  if name ∈ booleanFields then toBoolean value else value

/-- `canonical_parameters`. -/
def canonicalParameters (target : String) (recorded : Dictionary String (Scalar φ)) :
    Except String (Dictionary String (Scalar φ)) := do
  let result ← rename "completion_notice_loss_probability" "completion_notice_loss"
    "Recorded completion-notice loss settings disagree" recorded
  let result ← renameRun target result
  let result := setdefaults (fixedSettings target) result
  return result.mapValues canonicalValue

/-- `parameters`. -/
def parameters (job : Run φ) : Except String (Dictionary String (Scalar φ)) :=
  canonicalParameters job.target
    (if job.parameters.entries = [] then reconstruct job.target job.argv else job.parameters)

/-! ## Splitting arguments -/

/-- The name of an argument ends at its first equals sign. -/
theorem splitArgument_argument {key : String} (value : String) (h : '=' ∉ key.toList) :
    splitArgument (argument key value) = some (key, value) := by
  have hlist : (argument key value).toList =
      '-' :: '-' :: (key.toList ++ '=' :: value.toList) := by
    simp [argument]
  have hkey : ∀ c ∈ key.toList, decide (c ≠ '=') = true := by
    intro c hc
    refine decide_eq_true fun heq => h ?_
    rw [← heq]
    exact hc
  have hmem : '=' ∈ key.toList ++ '=' :: value.toList :=
    List.mem_append_right _ List.mem_cons_self
  simp only [splitArgument, hlist, if_pos hmem]
  rw [List.takeWhile_append_of_pos hkey, List.dropWhile_append_of_pos hkey,
    List.takeWhile_cons_of_neg (by simp), List.dropWhile_cons_of_neg (by simp), List.append_nil,
    List.tail_cons, String.ofList_toList, String.ofList_toList]

end Statim.Experiments
